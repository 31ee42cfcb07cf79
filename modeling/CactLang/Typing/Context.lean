import CactLang.Typing.Failure

/-!
# The checking context

While a program is checked, declarations enter the registry and a context says
where the walk is: in which scope, in which function, and inside which loops.
Checking a part may enter a scope, a function or a loop; `within` brings the
context back when the part is done, whether it passed or failed.
-/

namespace CactLang.Typing

/-- Where the walk is. -/
structure Context where
  /-- The scope that declarations go into and names are looked up from. -/
  scope : ScopeId
  /-- The function whose body is being checked. -/
  function : Option FunctionId := none
  /-- The loops around, the innermost first. -/
  loops : List NodeId := []
  deriving DecidableEq, Repr

/-- What has been declared so far, and where the walk is. -/
structure State where
  registry : Registry
  context : Context
  deriving DecidableEq, Repr

/-- A step of checking. It changes the state even if it fails. -/
abbrev Check (α : Type) := EStateM Failure State α

namespace Check

/-- Looks at the state without changing it. -/
def look {α : Type} (f : Registry → Context → Except Failure α) : Check α :=
  fun s => match f s.registry s.context with
  | .ok a => .ok a s
  | .error e => .error e s

/-- Changes the registry, or fails and leaves it. -/
def declare {α : Type} (f : Registry → Context → Except Failure (α × Registry)) : Check α :=
  fun s => match f s.registry s.context with
  | .ok (a, registry) => .ok a { s with registry }
  | .error e => .error e s

/-- Runs a part in a changed context. Afterwards `leave` is given the context from
before and the one the part left behind. -/
def within {α : Type} (enter : Context → Context) (leave : Context → Context → Context)
    (part : Check α) : Check α := fun s =>
  match part { s with context := enter s.context } with
  | .ok a s' => .ok a { s' with context := leave s.context s'.context }
  | .error e s' => .error e { s' with context := leave s.context s'.context }

/-- Runs a part in a new scope inside the current one; gives the scope too. -/
def inScope {α : Type} (part : Check α) : Check (ScopeId × α) := do
  let scope ← declare fun r context => .ok (r.newScope context.scope)
  let a ← within ({ · with scope })
    (fun before after => { after with scope := before.scope }) part
  return (scope, a)

/-- Runs a part in a function. -/
def inFunction {α : Type} (function : FunctionId) (part : Check α) : Check α :=
  within ({ · with function := some function })
    (fun before after => { after with function := before.function }) part

/-- Runs a part in one more loop. -/
def inLoop {α : Type} (loop : NodeId) (part : Check α) : Check α :=
  within (fun context => { context with loops := loop :: context.loops })
    (fun _ after => { after with loops := after.loops.tail }) part

end Check

end CactLang.Typing
