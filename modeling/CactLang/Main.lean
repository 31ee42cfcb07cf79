import CactLang.Cli.Duration
import CactLang.Cli.Run

/-!
# The command line

The front end run by the operating system.
-/

namespace CactLang.Cli

/-- The failure that an error of the operating system stands for. -/
def ReadFailure.ofError : IO.Error → ReadFailure
  | .noFileOrDirectory .. => .missing
  | .inappropriateType .. => .isDirectory
  | e => .other (toString e)

/-- The operating system. -/
def Host.system : Host IO where
  read path := do
    match ← (IO.FS.readBinFile path).toBaseIO with
    | .ok bytes => return decode bytes
    | .error e => return .error (.ofError e)
  now := IO.monoNanosNow
  elapsed start stop := durationText (stop - start)
  print := IO.print
  printError := IO.eprint

end CactLang.Cli

/-- Runs the front end; the exit code is zero if everything went well. -/
def main (args : List String) : IO UInt32 := do
  let exit ← CactLang.Cli.run CactLang.Cli.Host.system args
  return exit.code.toUInt32
