import CactLang.Cli.Arguments
import CactLang.Cli.Directory
import CactLang.Diagnostic.Report
import CactLang.Grammar.Statement
import CactLang.Token.Scan
import CactLang.Tree.Outline
import CactLang.Typing.Statement

/-!
# Running the front end

A run reads one file and takes it through its three phases, printing how long
each took. The first error ends it with a report; otherwise the tree and the
registry are printed if they are wanted, and a summary. A run crashes where a
report breaks off, or where a handle names nothing.

What a run needs of the world is a `Host`. It is the same run whether the host is
the operating system or a directory in memory with a transcript.
-/

namespace CactLang.Cli

/-- What a run needs of the world. -/
structure Host (m : Type → Type) where
  /-- Reads a file. -/
  read : String → m (Except ReadFailure String)
  /-- A clock. -/
  now : m Nat
  /-- The time between two readings of the clock, in words. -/
  elapsed : (start stop : Nat) → String
  /-- Prints a text. -/
  print : String → m Unit
  /-- Prints a text for errors. -/
  printError : String → m Unit

variable {m : Type → Type} [Monad m]

/-- Prints a line. -/
def Host.line (host : Host m) (text : String) : m Unit :=
  host.print (text ++ "\n")

/-- Prints what something took since a reading of the clock. -/
def Host.since (host : Host m) (what : String) (start : Nat) : m Unit := do
  let stop ← host.now
  host.line (what ++ host.elapsed start stop)

/-- How a run ends. -/
inductive Exit where
  | passed
  | failed
  | crashed
  deriving DecidableEq, Repr

/-- The code that the operating system is given. -/
def Exit.code : Exit → Nat
  | passed => 0
  | failed => 1
  | crashed => 101

/-- Prints the report on a diagnostic, with which the run ends. -/
def Host.report (host : Host m) (d : Diagnostic) (path : String) (source : List Char) :
    m Exit := do
  host.printError (d.report path source)
  return if d.breaksOff source then .crashed else .failed

/-- Prints the report on a failure of the type checker. -/
def Host.reportFailure (host : Host m) (failure : Typing.Failure) (path : String)
    (source : List Char) : m Exit :=
  match failure with
  | .diagnostic d => host.report d path source
  | .dangling => return .crashed

/-- Takes a source through the three phases. -/
def check (host : Host m) (args : Arguments) (source : String) : m Exit := do
  let text := source.toList
  let start ← host.now
  match tokenize source args.fileName with
  | .error d => host.report d args.path text
  | .ok tokens =>
    host.since "Tokenized in " start
    let parseStart ← host.now
    let result := parse tokens args.fileName
    host.since "Parsed in " parseStart
    match result with
    | .error d _ => host.report d args.path text
    | .ok tree _ =>
      let checkStart ← host.now
      let (result, registry) := Typing.typeCheck args.builtins tree
      host.since "Type checked in " checkStart
      match result with
      | .error failure => host.reportFailure failure args.path text
      | .ok tree =>
        if args.dump then
          host.line (tree.outline.render "")
          host.line (registry.outline.render "")
        let functions := registry.functions.size
        let scopes := registry.scopes.size
        host.since s!"Checked {functions} functions in {scopes} scopes, total time: " start
        return .passed

/-- Runs the front end. -/
def run (host : Host m) (args : List String) : m Exit := do
  match Arguments.parse? args with
  | none =>
    host.printError (usage ++ "\n")
    return .failed
  | some args =>
    match ← host.read args.path with
    | .error failure =>
      host.printError ("Failed to read " ++ args.path ++ ": " ++ failure.reason ++ "\n")
      return .failed
    | .ok source => check host args source

/-! ## Transcripts -/

/-- What a run printed. -/
structure Transcript where
  output : String := ""
  errors : String := ""
  deriving DecidableEq, Repr

/-- A host that reads from a directory in memory and writes a transcript, in which
every time is `time`. -/
def Host.inMemory (d : Directory) (time : String) : Host (StateM Transcript) where
  read path := pure (d.read path)
  now := pure 0
  elapsed _ _ := time
  print text := modify fun t => { t with output := t.output ++ text }
  printError text := modify fun t => { t with errors := t.errors ++ text }

end CactLang.Cli
