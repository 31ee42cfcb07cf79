import CactLang.Tree.Expr

/-!
# Declarations

Declarations of variables and constants, their dimensions and initializers, and
the parameters of functions.
-/

namespace CactLang

/-- The text between a pair of array brackets: an integer literal, perhaps with
a minus sign. -/
structure Dimension where
  text : String
  span : Span
  deriving DecidableEq, Repr

/-- An initializer: an expression, or a braced list of initializers. -/
inductive Initializer where
  | scalar (id : NodeId) (value : Expr) (span : Span)
  | list (id : NodeId) (items : List Initializer) (span : Span)

namespace Initializer

/-- The identity of the node. -/
def id : Initializer → NodeId
  | scalar id _ _ => id
  | list id _ _ => id

/-- Where it stands. -/
def span : Initializer → Span
  | scalar _ _ span => span
  | list _ _ span => span

/-- Whether it is an expression. -/
def isScalar : Initializer → Bool
  | scalar .. => true
  | list .. => false

mutual

/-- The initializer without what the type checker found out. -/
def erase : Initializer → Initializer
  | scalar id value span => .scalar id value.erase span
  | list id items span => .list id (eraseAll items) span

/-- The initializers without what the type checker found out. -/
def eraseAll : List Initializer → List Initializer
  | [] => []
  | i :: is => i.erase :: eraseAll is

end

end Initializer

/-- The definition of one variable or constant. -/
structure VarDef where
  id : NodeId
  name : String
  dims : List Dimension
  init : Option Initializer
  span : Span
  /-- The variable it declares. -/
  symbol : Option SymbolId := none

/-- The definition without what the type checker found out. -/
def VarDef.erase (d : VarDef) : VarDef :=
  { d with init := d.init.map Initializer.erase, symbol := none }

/-- A declaration: one element kind and at least one definition. -/
structure Decl where
  id : NodeId
  isConstant : Bool
  basic : BasicType
  defs : List VarDef
  span : Span

/-- The declaration without what the type checker found out. -/
def Decl.erase (d : Decl) : Decl :=
  { d with defs := d.defs.map VarDef.erase }

/-- A parameter of a function definition. -/
structure Param where
  id : NodeId
  name : String
  basic : BasicType
  /-- Whether the outermost dimension is left open, as in `a[]`. -/
  isOpen : Bool
  /-- The dimensions that are written out. -/
  dims : List Dimension
  span : Span
  /-- The variable it declares. -/
  symbol : Option SymbolId := none
  deriving DecidableEq, Repr

/-- The parameter without what the type checker found out. -/
def Param.erase (p : Param) : Param :=
  { p with symbol := none }

end CactLang
