import CactLang.Operator
import CactLang.Registry
import CactLang.Source.Position
import CactLang.Tree.NodeId

/-!
# Expressions

The tree of an expression. A node carries its identity and its span, and room
for what the type checker finds out: the type of an expression, the variable a
name stands for, the function a call is made to. These are absent in a tree that
was only read, and `erase` takes them out again.
-/

namespace CactLang

/-- The three forms of numeric literals; the form alone decides the type. -/
inductive NumberKind where
  | integer
  | float
  | double
  deriving DecidableEq, Repr, Inhabited

namespace NumberKind

/-- The name a form is shown by in outlines. -/
def label : NumberKind → String
  | integer => "Integer"
  | float => "Float"
  | double => "Double"

/-- The type of a literal of this form. -/
def basic : NumberKind → BasicType
  | integer => .int32
  | float => .float
  | double => .double

end NumberKind

/-- What the type checker knows of an expression. -/
structure ExprInfo where
  ty : Ty
  /-- Built from literals and operators alone. -/
  isConstant : Bool
  /-- A variable that may stand to the left of an assignment. -/
  isAssignable : Bool
  deriving DecidableEq, Repr

mutual

/-- An expression node. -/
structure Expr where
  id : NodeId
  kind : ExprKind
  span : Span
  /-- What the type checker found out. -/
  info : Option ExprInfo

/-- The forms of expressions. -/
inductive ExprKind where
  /-- A numeric literal. -/
  | number (text : String) (kind : NumberKind)
  /-- A truth literal. -/
  | bool (value : Bool)
  /-- A variable, with or without indices. -/
  | lvalue (lvalue : LValue)
  /-- An expression in parentheses. -/
  | paren (inner : Expr)
  /-- An operator in front of an operand. -/
  | unary (operator : Operator) (operand : Expr)
  /-- An operator between two operands. -/
  | binary (operator : Operator) (left right : Expr)
  /-- A call, with the function it was resolved to. -/
  | call (callee : String) (arguments : List Expr) (function : Option FunctionId)

/-- A variable and the indices applied to it: `a`, `a[i][j]`. -/
structure LValue where
  id : NodeId
  name : String
  indices : List Expr
  span : Span
  /-- The variable the name stands for. -/
  symbol : Option SymbolId
  /-- Whether that variable can be assigned to. -/
  assignable : Bool

end

/-- An expression as read, with nothing known about it. -/
def Expr.plain (id : NodeId) (kind : ExprKind) (span : Span) : Expr :=
  ⟨id, kind, span, none⟩

/-- A variable as read, with nothing known about it. -/
def LValue.plain (id : NodeId) (name : String) (indices : List Expr) (span : Span) : LValue :=
  ⟨id, name, indices, span, none, false⟩

mutual

/-- The expression without what the type checker found out. -/
def Expr.erase : Expr → Expr
  | ⟨id, .number text kind, span, _⟩ => .plain id (.number text kind) span
  | ⟨id, .bool value, span, _⟩ => .plain id (.bool value) span
  | ⟨id, .lvalue lvalue, span, _⟩ => .plain id (.lvalue lvalue.erase) span
  | ⟨id, .paren inner, span, _⟩ => .plain id (.paren inner.erase) span
  | ⟨id, .unary operator operand, span, _⟩ => .plain id (.unary operator operand.erase) span
  | ⟨id, .binary operator left right, span, _⟩ =>
    .plain id (.binary operator left.erase right.erase) span
  | ⟨id, .call callee arguments _, span, _⟩ =>
    .plain id (.call callee (Expr.eraseAll arguments) none) span

/-- The variable without what the type checker found out. -/
def LValue.erase : LValue → LValue
  | ⟨id, name, indices, span, _, _⟩ => .plain id name (Expr.eraseAll indices) span

/-- The expressions without what the type checker found out. -/
def Expr.eraseAll : List Expr → List Expr
  | [] => []
  | e :: es => e.erase :: Expr.eraseAll es

end

end CactLang
