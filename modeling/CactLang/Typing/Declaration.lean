import CactLang.Typing.Context
import CactLang.Typing.Expression

/-!
# Typing declarations

A definition is checked before its name is declared, dimensions first and then
the initializer, so a name is not visible in its own initializer.
-/

namespace CactLang.Typing

/-- The extent a dimension denotes: a number from one up to the largest 32-bit
word. -/
def extent? (dim : Dimension) : Option Nat :=
  match Literal.integer? dim.text.toList with
  | some value => if 0 < value ∧ value < 4294967296 then some value.toNat else none
  | none => none

/-- The extent of a dimension of node `id`; the diagnostic points at the
dimension. -/
def checkDimension (id : NodeId) (dim : Dimension) : Except Diagnostic Nat :=
  match extent? dim with
  | some extent => .ok extent
  | none => .error (.ofNode (.badDimension dim.text) id dim.span)

/-- The extents of dimensions, up to the first that has none. -/
def checkDimensions (id : NodeId) : List Dimension → Except Diagnostic (List Nat)
  | [] => return []
  | dim :: dims => do
    let extent ← checkDimension id dim
    let extents ← checkDimensions id dims
    return extent :: extents

/-- The type that an element kind and dimensions declare, with an open dimension
outside of them if `isOpen`. -/
def declaredType (basic : BasicType) (dims : List Dimension) (isOpen : Bool) (id : NodeId) :
    Except Diagnostic Ty := do
  let extents ← checkDimensions id dims
  return ⟨basic, if isOpen then 0 :: extents else extents⟩

/-- The declared type, failing as checking does. -/
def typeOf (basic : BasicType) (dims : List Dimension) (isOpen : Bool) (id : NodeId) :
    Except Failure Ty :=
  (declaredType basic dims isOpen id).mapError .diagnostic

/-- Binds a name in the current scope, for the node that declares it. -/
def bindName (id : NodeId) (span : Span) (name : String) (symbol : Symbol) : Check SymbolId :=
  .declare fun r context => locateRefusal id span (r.register context.scope name symbol)

/-- Checks an initializer in the current scope. -/
def initializer (target : Ty) (depth : Nat) (init : Initializer) : Check Initializer :=
  .look fun r context => checkInitializer r context.scope target depth init

/-- The variable that a definition declares. -/
def declaredSymbol (isConstant : Bool) (d : VarDef) (ty : Ty) : Symbol :=
  if isConstant then .ofConstant d.name ty
  else { Symbol.ofVariable d.name ty with isInitialized := d.init.isSome }

/-- Checks a definition and declares its name. -/
def varDef (isConstant : Bool) (basic : BasicType) (d : VarDef) : Check VarDef := do
  let ty ← .look fun _ _ => typeOf basic d.dims false d.id
  let init ← match d.init with
    | none => pure none
    | some init => some <$> initializer ty 0 init
  let symbol ← bindName d.id d.span d.name (declaredSymbol isConstant d ty)
  return { d with init, symbol := some symbol }

/-- Checks definitions, from the first to the last. -/
def varDefs (isConstant : Bool) (basic : BasicType) : List VarDef → Check (List VarDef)
  | [] => return []
  | d :: ds => do
    let d' ← varDef isConstant basic d
    let ds' ← varDefs isConstant basic ds
    return d' :: ds'

/-- Checks a declaration. -/
def decl (d : Decl) : Check Decl := do
  return { d with defs := ← varDefs d.isConstant d.basic d.defs }

/-- Checks a parameter: adds it to the function and declares its name. -/
def param (function : FunctionId) (p : Param) : Check Param := do
  let ty ← .look fun _ _ => typeOf p.basic p.dims p.isOpen p.id
  Check.declare fun r _ =>
    locateRefusal p.id p.span ((r.addParameter function ⟨p.name, ty⟩).map ((), ·))
  let symbol ← bindName p.id p.span p.name (.ofParameter p.name ty)
  return { p with symbol := some symbol }

/-- Checks parameters, from the first to the last. -/
def params (function : FunctionId) : List Param → Check (List Param)
  | [] => return []
  | p :: ps => do
    let p' ← param function p
    let ps' ← params function ps
    return p' :: ps'

end CactLang.Typing
