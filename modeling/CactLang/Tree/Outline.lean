import CactLang.Registry.Outline
import CactLang.Tree.Stmt

/-!
# Outlines of trees

The outline of every node of a program, with what the type checker found out.
-/

namespace CactLang

open Text (Outline)

/-! ## Places and identities -/

/-- The outline of a position. -/
def Position.outline (p : Position) : Outline :=
  .tuple "Position" [.nat p.offset, .text p.file]

/-- The outline of a span. -/
def Span.outline (s : Span) : Outline :=
  .record "Span" [("start", s.start.outline), ("end", s.stop.outline)]

/-- The outline of an identity. -/
def NodeId.outline (id : NodeId) : Outline :=
  .tuple "NodeId" [.nat id.index]

/-! ## Expressions -/

/-- The outline of what is known of an expression. -/
def ExprInfo.outline (i : ExprInfo) : Outline :=
  .record "ExprInfo"
    [("ty", i.ty.outline), ("is_constant", .bool i.isConstant),
      ("is_assignable", .bool i.isAssignable)]

/-- The outline of an expression node of some form. -/
def Expr.outlineOf (id : NodeId) (kind : Outline) (span : Span) (info : Option ExprInfo) :
    Outline :=
  .record "Expr"
    [("id", id.outline), ("kind", kind), ("span", span.outline),
      ("info", .option ExprInfo.outline info)]

mutual

/-- The outline of an expression. -/
def Expr.outline : Expr → Outline
  | ⟨id, .number text kind, span, info⟩ =>
    Expr.outlineOf id (.record "Number" [("text", .text text), ("kind", .leaf kind.label)])
      span info
  | ⟨id, .bool value, span, info⟩ => Expr.outlineOf id (.tuple "Bool" [.bool value]) span info
  | ⟨id, .lvalue lvalue, span, info⟩ =>
    Expr.outlineOf id (.tuple "LValue" [lvalue.outline]) span info
  | ⟨id, .paren inner, span, info⟩ =>
    Expr.outlineOf id (.tuple "Paren" [inner.outline]) span info
  | ⟨id, .unary operator operand, span, info⟩ =>
    Expr.outlineOf id
      (.record "Unary" [("operator", .leaf operator.label), ("operand", operand.outline)])
      span info
  | ⟨id, .binary operator left right, span, info⟩ =>
    Expr.outlineOf id
      (.record "Binary"
        [("operator", .leaf operator.label), ("left", left.outline), ("right", right.outline)])
      span info
  | ⟨id, .call callee arguments function, span, info⟩ =>
    Expr.outlineOf id
      (.record "Call"
        [("callee", .text callee), ("arguments", .list (Expr.outlines arguments)),
          ("function", .option FunctionId.outline function)])
      span info

/-- The outline of a variable and its indices. -/
def LValue.outline : LValue → Outline
  | ⟨id, name, indices, span, symbol, assignable⟩ =>
    .record "LValue"
      [("id", id.outline), ("name", .text name), ("indices", .list (Expr.outlines indices)),
        ("span", span.outline), ("symbol", .option SymbolId.outline symbol),
        ("assignable", .bool assignable)]

/-- The outlines of expressions. -/
def Expr.outlines : List Expr → List Outline
  | [] => []
  | e :: es => e.outline :: Expr.outlines es

end

/-! ## Declarations -/

/-- The outline of a dimension. -/
def Dimension.outline (d : Dimension) : Outline :=
  .record "DimLiteral" [("text", .text d.text), ("span", d.span.outline)]

/-- The outline of an initializer node of some form. -/
def Initializer.outlineOf (id : NodeId) (kind : Outline) (span : Span) : Outline :=
  .record "InitVal" [("id", id.outline), ("kind", kind), ("span", span.outline)]

mutual

/-- The outline of an initializer. -/
def Initializer.outline : Initializer → Outline
  | .scalar id value span => outlineOf id (.tuple "Expr" [value.outline]) span
  | .list id items span => outlineOf id (.tuple "List" [.list (Initializer.outlines items)]) span

/-- The outlines of initializers. -/
def Initializer.outlines : List Initializer → List Outline
  | [] => []
  | i :: is => i.outline :: Initializer.outlines is

end

/-- The outline of a definition. -/
def VarDef.outline (d : VarDef) : Outline :=
  .record "VarDef"
    [("id", d.id.outline), ("name", .text d.name), ("dims", .list (d.dims.map Dimension.outline)),
      ("init", .option Initializer.outline d.init), ("span", d.span.outline),
      ("symbol", .option SymbolId.outline d.symbol)]

/-- The outline of a declaration. -/
def Decl.outline (d : Decl) : Outline :=
  .record "Decl"
    [("id", d.id.outline), ("is_constant", .bool d.isConstant), ("basic_type", d.basic.outline),
      ("defs", .list (d.defs.map VarDef.outline)), ("span", d.span.outline)]

/-- The outline of a parameter. -/
def Param.outline (p : Param) : Outline :=
  .record "FuncParam"
    [("id", p.id.outline), ("name", .text p.name), ("basic_type", p.basic.outline),
      ("unsized_first_dim", .bool p.isOpen), ("dims", .list (p.dims.map Dimension.outline)),
      ("span", p.span.outline), ("symbol", .option SymbolId.outline p.symbol)]

/-! ## Statements -/

/-- The outline of a statement node of some form. -/
def Stmt.outlineOf (id : NodeId) (kind : Outline) (span : Span) (hasReturn : Bool) : Outline :=
  .record "Stmt"
    [("id", id.outline), ("kind", kind), ("span", span.outline), ("has_return", .bool hasReturn)]

/-- The outline of an `if`, its branches outlined already. -/
def Stmt.outlineCond (condition : Expr) (thenBranch elseBranch : Outline) : Outline :=
  .record "If"
    [("condition", condition.outline), ("then_branch", thenBranch), ("else_branch", elseBranch)]

mutual

/-- The outline of a statement. -/
def Stmt.outline : Stmt → Outline
  | ⟨id, .assign target value, span, hasReturn⟩ =>
    Stmt.outlineOf id (.record "Assign" [("target", target.outline), ("value", value.outline)])
      span hasReturn
  | ⟨id, .expr value, span, hasReturn⟩ =>
    Stmt.outlineOf id (.tuple "Expr" [.option Expr.outline value]) span hasReturn
  | ⟨id, .block block, span, hasReturn⟩ =>
    Stmt.outlineOf id (.tuple "Block" [block.outline]) span hasReturn
  | ⟨id, .cond condition thenBranch none, span, hasReturn⟩ =>
    Stmt.outlineOf id (Stmt.outlineCond condition thenBranch.outline (.leaf "None")) span hasReturn
  | ⟨id, .cond condition thenBranch (some elseBranch), span, hasReturn⟩ =>
    Stmt.outlineOf id
      (Stmt.outlineCond condition thenBranch.outline (.tuple "Some" [elseBranch.outline]))
      span hasReturn
  | ⟨id, .loop condition body, span, hasReturn⟩ =>
    Stmt.outlineOf id (.record "While" [("condition", condition.outline), ("body", body.outline)])
      span hasReturn
  | ⟨id, .leave target, span, hasReturn⟩ =>
    Stmt.outlineOf id (.record "Break" [("target", .option NodeId.outline target)])
      span hasReturn
  | ⟨id, .next target, span, hasReturn⟩ =>
    Stmt.outlineOf id (.record "Continue" [("target", .option NodeId.outline target)])
      span hasReturn
  | ⟨id, .ret value function, span, hasReturn⟩ =>
    Stmt.outlineOf id
      (.record "Return"
        [("value", .option Expr.outline value), ("function", .option FunctionId.outline function)])
      span hasReturn

/-- The outline of a block. -/
def Block.outline : Block → Outline
  | ⟨id, items, span, scope, hasReturn⟩ =>
    .record "Block"
      [("id", id.outline), ("items", .list (BlockItem.outlines items)), ("span", span.outline),
        ("scope", .option ScopeId.outline scope), ("has_return", .bool hasReturn)]

/-- The outlines of the items of a block. -/
def BlockItem.outlines : List BlockItem → List Outline
  | [] => []
  | .decl d :: rest => .tuple "Decl" [d.outline] :: BlockItem.outlines rest
  | .stmt s :: rest => .tuple "Stmt" [s.outline] :: BlockItem.outlines rest

end

/-! ## Programs -/

/-- The outline of a function definition. -/
def FuncDef.outline (f : FuncDef) : Outline :=
  .record "FuncDef"
    [("id", f.id.outline), ("name", .text f.name), ("return_type", f.returns.outline),
      ("params", .list (f.params.map Param.outline)), ("body", f.body.outline),
      ("span", f.span.outline), ("function", .option FunctionId.outline f.function),
      ("scope", .option ScopeId.outline f.scope)]

/-- The outline of an item. -/
def Item.outline : Item → Outline
  | decl d => .tuple "Decl" [d.outline]
  | func f => .tuple "FuncDef" [f.outline]

/-- The outline of a program. -/
def Program.outline (p : Program) : Outline :=
  .record "CompUnit"
    [("id", p.id.outline), ("items", .list (p.items.map Item.outline)), ("span", p.span.outline)]

end CactLang
