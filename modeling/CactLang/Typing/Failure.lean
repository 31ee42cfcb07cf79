import CactLang.Diagnostic
import CactLang.Registry

/-!
# Failures of type checking

Checking fails with a diagnostic about a tree node. It fails otherwise only if it
is started with a registry in which a handle names nothing.
-/

namespace CactLang.Typing

/-- Why checking stopped. -/
inductive Failure where
  /-- Something is wrong with the program. -/
  | diagnostic (d : Diagnostic)
  /-- A handle names no entry of the registry. -/
  | dangling
  deriving DecidableEq, Repr

/-- Stops with a cause at a node. -/
def reject {α : Type} (cause : Cause) (id : NodeId) (span : Span) : Except Failure α :=
  .error (.diagnostic (.ofNode cause id span))

/-- Puts the cause of a rejection at a node. -/
def locate {α : Type} (id : NodeId) (span : Span) : Except Cause α → Except Failure α
  | .ok a => .ok a
  | .error cause => reject cause id span

/-- Puts the refusal of the registry at a node. -/
def locateRefusal {α : Type} (id : NodeId) (span : Span) :
    Except Registry.Refusal α → Except Failure α
  | .ok a => .ok a
  | .error (.cause cause) => reject cause id span
  | .error .dangling => .error .dangling

/-- The entry of a handle that must name one. -/
def entry {α : Type} : Option α → Except Failure α
  | some a => .ok a
  | none => .error .dangling

end CactLang.Typing
