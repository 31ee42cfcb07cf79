import CactLang.Proofs.Nodes

/-!
# What values are used for

Every expression of a program stands somewhere: as a statement, next to an operator, between
brackets, in a call. Parentheses pass a value on, so what stands in them is used for what they
are used for.

> `Program.uses`: every expression of the tree, each with what its value is used for.

`Program.map_uses` says that no expression is left out.
-/

namespace CactLang

/-! ## Every expression and its use -/

/-- What the value of an expression is used for. -/
inductive Use where
  /-- For nothing: the expression is a statement. -/
  | statement
  /-- For an operator. -/
  | operand
  | index
  | argument
  | condition
  /-- For an element of what is declared. -/
  | element
  /-- For the variable on the left of an assignment. -/
  | assigned (target : LValue)
  | returned

/-- The expression at the node. -/
def Node.expr? : Node → Option Expr
  | .expr e => some e
  | _ => none

mutual

/-- The expressions in an expression with the given use, itself last. -/
def Expr.uses (use : Use) : Expr → List (Use × Expr)
  | ⟨id, kind, span, info⟩ => kind.uses use ++ [(use, ⟨id, kind, span, info⟩)]

/-- The expressions inside an expression of this form. -/
def ExprKind.uses (use : Use) : ExprKind → List (Use × Expr)
  | .number _ _ => []
  | .bool _ => []
  | .lvalue l => l.uses
  | .paren inner => inner.uses use
  | .unary _ operand => operand.uses .operand
  | .binary _ left right => left.uses .operand ++ right.uses .operand
  | .call _ arguments _ => Expr.allUses .argument arguments

/-- The expressions in the indices of a variable. -/
def LValue.uses : LValue → List (Use × Expr)
  | ⟨_, _, indices, _, _, _⟩ => Expr.allUses .index indices

/-- The expressions in expressions that have all the same use. -/
def Expr.allUses (use : Use) : List Expr → List (Use × Expr)
  | [] => []
  | e :: es => e.uses use ++ Expr.allUses use es

end

mutual

/-- The expressions in an initializer. -/
def Initializer.uses : Initializer → List (Use × Expr)
  | .scalar _ value _ => value.uses .element
  | .list _ items _ => Initializer.allUses items

/-- The expressions in initializers. -/
def Initializer.allUses : List Initializer → List (Use × Expr)
  | [] => []
  | x :: xs => x.uses ++ Initializer.allUses xs

end

/-- The expressions in a definition. -/
def VarDef.uses (d : VarDef) : List (Use × Expr) :=
  d.init.elim [] Initializer.uses

/-- The expressions in a declaration. -/
def Decl.uses (d : Decl) : List (Use × Expr) :=
  d.defs.flatMap VarDef.uses

mutual

/-- The expressions in a statement. -/
def Stmt.uses : Stmt → List (Use × Expr)
  | ⟨_, .assign target value, _, _⟩ => target.uses ++ value.uses (.assigned target)
  | ⟨_, .expr value, _, _⟩ => value.elim [] (Expr.uses .statement)
  | ⟨_, .block b, _, _⟩ => b.uses
  | ⟨_, .cond test thenBranch none, _, _⟩ => test.uses .condition ++ thenBranch.uses
  | ⟨_, .cond test thenBranch (some elseBranch), _, _⟩ =>
    test.uses .condition ++ (thenBranch.uses ++ elseBranch.uses)
  | ⟨_, .loop test body, _, _⟩ => test.uses .condition ++ body.uses
  | ⟨_, .leave _, _, _⟩ => []
  | ⟨_, .next _, _, _⟩ => []
  | ⟨_, .ret value _, _, _⟩ => value.elim [] (Expr.uses .returned)

/-- The expressions in a block. -/
def Block.uses : Block → List (Use × Expr)
  | ⟨_, items, _, _, _⟩ => BlockItem.allUses items

/-- The expressions in the items of a block. -/
def BlockItem.allUses : List BlockItem → List (Use × Expr)
  | [] => []
  | .decl d :: rest => d.uses ++ BlockItem.allUses rest
  | .stmt t :: rest => t.uses ++ BlockItem.allUses rest

end

/-- The expressions in an item of a program. -/
def Item.uses : Item → List (Use × Expr)
  | decl d => d.uses
  | func f => f.body.uses

/-- All expressions of a program, each with its use. -/
def Program.uses (p : Program) : List (Use × Expr) :=
  p.items.flatMap Item.uses

/-- What is in the parentheses, if an expression stands in some. -/
def Expr.core : Expr → Expr
  | ⟨_, .paren inner, _, _⟩ => inner.core
  | e => e

/-! ### No expression is left out -/

theorem Node.filterMap_concat {ns : List Node} {n : Node} (h : n.expr? = none) :
    (ns ++ [n]).filterMap Node.expr? = ns.filterMap Node.expr? := by
  rw [List.filterMap_append, List.filterMap_cons_none h, List.filterMap_nil, List.append_nil]

mutual

theorem Expr.map_uses (use : Use) :
    ∀ e : Expr, (e.uses use).map Prod.snd = e.nodes.filterMap Node.expr?
  | ⟨_, kind, _, _⟩ => by
    rw [Expr.uses, Expr.nodes, List.map_append, List.filterMap_append, ExprKind.map_uses use kind]
    rfl
termination_by structural e => e

theorem ExprKind.map_uses (use : Use) :
    ∀ k : ExprKind, (k.uses use).map Prod.snd = k.nodes.filterMap Node.expr?
  | .number _ _ => rfl
  | .bool _ => rfl
  | .lvalue l => by
    rw [ExprKind.uses, ExprKind.nodes, LValue.map_uses l]
  | .paren inner => by
    rw [ExprKind.uses, ExprKind.nodes, Expr.map_uses use inner]
  | .unary _ operand => by
    rw [ExprKind.uses, ExprKind.nodes, Expr.map_uses .operand operand]
  | .binary _ left right => by
    rw [ExprKind.uses, ExprKind.nodes, List.map_append, List.filterMap_append,
      Expr.map_uses .operand left, Expr.map_uses .operand right]
  | .call _ arguments _ => by
    rw [ExprKind.uses, ExprKind.nodes, Expr.map_allUses .argument arguments]
termination_by structural k => k

theorem LValue.map_uses : ∀ l : LValue, l.uses.map Prod.snd = l.nodes.filterMap Node.expr?
  | ⟨_, _, indices, _, _, _⟩ => by
    rw [LValue.uses, LValue.nodes, Node.filterMap_concat rfl, Expr.map_allUses .index indices]
termination_by structural l => l

theorem Expr.map_allUses (use : Use) :
    ∀ es : List Expr, (Expr.allUses use es).map Prod.snd = (Expr.allNodes es).filterMap Node.expr?
  | [] => rfl
  | e :: es => by
    rw [Expr.allUses, Expr.allNodes, List.map_append, List.filterMap_append, Expr.map_uses use e,
      Expr.map_allUses use es]
termination_by structural es => es

end

mutual

theorem Initializer.map_uses :
    ∀ x : Initializer, x.uses.map Prod.snd = x.nodes.filterMap Node.expr?
  | .scalar _ value _ => by
    rw [Initializer.uses, Initializer.nodes, Node.filterMap_concat rfl,
      Expr.map_uses .element value]
  | .list _ items _ => by
    rw [Initializer.uses, Initializer.nodes, Node.filterMap_concat rfl,
      Initializer.map_allUses items]
termination_by structural x => x

theorem Initializer.map_allUses :
    ∀ xs : List Initializer,
      (Initializer.allUses xs).map Prod.snd = (Initializer.allNodes xs).filterMap Node.expr?
  | [] => rfl
  | x :: xs => by
    rw [Initializer.allUses, Initializer.allNodes, List.map_append, List.filterMap_append,
      Initializer.map_uses x, Initializer.map_allUses xs]
termination_by structural xs => xs

end

theorem VarDef.map_uses (d : VarDef) : d.uses.map Prod.snd = d.nodes.filterMap Node.expr? := by
  rw [VarDef.uses, VarDef.nodes, Node.filterMap_concat rfl]
  cases d.init with
  | none => rfl
  | some x => exact Initializer.map_uses x

/-- Parts that leave nothing out leave nothing out together. -/
theorem map_flatMap_uses {α : Type} {uses : α → List (Use × Expr)} {nodes : α → List Node}
    {xs : List α} (h : ∀ x, (uses x).map Prod.snd = (nodes x).filterMap Node.expr?) :
    (xs.flatMap uses).map Prod.snd = (xs.flatMap nodes).filterMap Node.expr? := by
  rw [List.map_flatMap, List.filterMap_flatMap, funext h]

theorem Decl.map_uses (d : Decl) : d.uses.map Prod.snd = d.nodes.filterMap Node.expr? := by
  rw [Decl.uses, Decl.nodes, Node.filterMap_concat rfl, map_flatMap_uses VarDef.map_uses]

mutual

theorem Stmt.map_uses : ∀ t : Stmt, t.uses.map Prod.snd = t.nodes.filterMap Node.expr?
  | ⟨_, .assign target value, _, _⟩ => by
    rw [Stmt.uses, Stmt.nodes, Node.filterMap_concat rfl, StmtKind.nodes, List.map_append,
      List.filterMap_append, LValue.map_uses, Expr.map_uses]
  | ⟨_, .expr none, _, _⟩ => rfl
  | ⟨_, .expr (some value), _, _⟩ => by
    rw [Stmt.uses, Stmt.nodes, Node.filterMap_concat rfl, StmtKind.nodes]
    exact Expr.map_uses _ value
  | ⟨_, .block b, _, _⟩ => by
    rw [Stmt.uses, Stmt.nodes, Node.filterMap_concat rfl, StmtKind.nodes, Block.map_uses b]
  | ⟨_, .cond test thenBranch none, _, _⟩ => by
    rw [Stmt.uses, Stmt.nodes, Node.filterMap_concat rfl, StmtKind.nodes, List.map_append,
      List.filterMap_append, Expr.map_uses, Stmt.map_uses thenBranch]
  | ⟨_, .cond test thenBranch (some elseBranch), _, _⟩ => by
    rw [Stmt.uses, Stmt.nodes, Node.filterMap_concat rfl, StmtKind.nodes, List.map_append,
      List.map_append, List.filterMap_append, List.filterMap_append, Expr.map_uses,
      Stmt.map_uses thenBranch, Stmt.map_uses elseBranch]
  | ⟨_, .loop test body, _, _⟩ => by
    rw [Stmt.uses, Stmt.nodes, Node.filterMap_concat rfl, StmtKind.nodes, List.map_append,
      List.filterMap_append, Expr.map_uses, Stmt.map_uses body]
  | ⟨_, .leave _, _, _⟩ => rfl
  | ⟨_, .next _, _, _⟩ => rfl
  | ⟨_, .ret none _, _, _⟩ => rfl
  | ⟨_, .ret (some value) _, _, _⟩ => by
    rw [Stmt.uses, Stmt.nodes, Node.filterMap_concat rfl, StmtKind.nodes]
    exact Expr.map_uses _ value

theorem Block.map_uses : ∀ b : Block, b.uses.map Prod.snd = b.nodes.filterMap Node.expr?
  | ⟨_, items, _, _, _⟩ => by
    rw [Block.uses, Block.nodes, Node.filterMap_concat rfl, BlockItem.map_allUses items]

theorem BlockItem.map_allUses :
    ∀ items : List BlockItem,
      (BlockItem.allUses items).map Prod.snd = (BlockItem.allNodes items).filterMap Node.expr?
  | [] => rfl
  | .decl d :: rest => by
    rw [BlockItem.allUses, BlockItem.allNodes, List.map_append, List.filterMap_append,
      Decl.map_uses, BlockItem.map_allUses rest]
  | .stmt t :: rest => by
    rw [BlockItem.allUses, BlockItem.allNodes, List.map_append, List.filterMap_append,
      Stmt.map_uses t, BlockItem.map_allUses rest]

end

theorem Item.map_uses : ∀ i : Item, i.uses.map Prod.snd = i.nodes.filterMap Node.expr?
  | .decl d => d.map_uses
  | .func f => by
    have hparams : (f.params.map Node.param).filterMap Node.expr? = [] := by
      rw [List.filterMap_map]
      exact List.filterMap_eq_nil_iff.mpr fun _ _ => rfl
    rw [Item.uses, Item.nodes, FuncDef.nodes, List.filterMap_append, hparams, List.nil_append,
      Node.filterMap_concat rfl, f.body.map_uses]

/-- The uses of a program are those of all its expressions. -/
theorem Program.map_uses (p : Program) : p.uses.map Prod.snd = p.nodes.filterMap Node.expr? :=
  map_flatMap_uses Item.map_uses

end CactLang
