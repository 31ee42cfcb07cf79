/-!
# Command-line arguments

One path, and two flags that may stand anywhere and be repeated. Anything else
that starts with two dashes is refused, and so is a second path. A single dash
starts a path.
-/

namespace CactLang.Cli

/-- What a run is asked to do. -/
structure Arguments where
  /-- The file to check. -/
  path : String
  /-- Whether programs may call the built-in functions. -/
  builtins : Bool := true
  /-- Whether the tree and the registry are printed. -/
  dump : Bool := false
  deriving DecidableEq, Repr

namespace Arguments

/-- Reads arguments after a path, if one was given, and the flags so far. -/
def parseFrom? (path? : Option String) (builtins dump : Bool) : List String → Option Arguments
  | [] => path?.map fun path => { path, builtins, dump }
  | arg :: args =>
    if arg = "--no-builtins" then parseFrom? path? false dump args
    else if arg = "--dump" then parseFrom? path? builtins true args
    else if arg.startsWith "--" then none
    else if path?.isNone then parseFrom? (some arg) builtins dump args
    else none

/-- Reads arguments. -/
def parse? (args : List String) : Option Arguments :=
  parseFrom? none true false args

/-- The name of the file, as positions show it: the last part of the path, or
the whole path if that is no name. -/
def fileName (a : Arguments) : String :=
  match ((a.path.splitOn "/").filter fun part => part ≠ "" && part ≠ ".").getLast? with
  | some part => if part = ".." then a.path else part
  | none => a.path

end Arguments

/-- What is printed if the arguments cannot be read. -/
def usage : String :=
  "usage: cact <file> [--no-builtins] [--dump]"

end CactLang.Cli
