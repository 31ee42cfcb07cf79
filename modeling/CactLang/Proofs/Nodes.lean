import CactLang.Tree.Stmt

/-!
# The nodes of a tree

Every node of a program in one list, children from left to right before their parent.
A property of a whole tree is then a property of each of its nodes, said once for
each kind of node and apart from the walk over the tree.
-/

namespace CactLang

/-- A node of a program. -/
inductive Node where
  | expr (e : Expr)
  | lvalue (l : LValue)
  | init (x : Initializer)
  | varDef (d : VarDef)
  | decl (d : Decl)
  | param (p : Param)
  | stmt (t : Stmt)
  | block (b : Block)
  | func (f : FuncDef)

namespace Node

/-- The identity of the node. -/
def id : Node → NodeId
  | expr e => e.id
  | lvalue l => l.id
  | init x => x.id
  | varDef d => d.id
  | decl d => d.id
  | param p => p.id
  | stmt t => t.id
  | block b => b.id
  | func f => f.id

/-- Where the node stands. -/
def span : Node → Span
  | expr e => e.span
  | lvalue l => l.span
  | init x => x.span
  | varDef d => d.span
  | decl d => d.span
  | param p => p.span
  | stmt t => t.span
  | block b => b.span
  | func f => f.span

/-- Whether the node is of an expression or an initializer. -/
def isValue : Node → Bool
  | expr _ => true
  | lvalue _ => true
  | init _ => true
  | _ => false

/-- The name that the node declares. -/
def name? : Node → Option String
  | varDef d => some d.name
  | param p => some p.name
  | func f => some f.name
  | _ => none

/-- The dimensions written at the node. -/
def dims : Node → List Dimension
  | varDef d => d.dims
  | param p => p.dims
  | _ => []

end Node

mutual

/-- The nodes of an expression, itself last. -/
def Expr.nodes : Expr → List Node
  | ⟨id, kind, span, info⟩ => kind.nodes ++ [.expr ⟨id, kind, span, info⟩]

/-- The nodes inside an expression of this form. -/
def ExprKind.nodes : ExprKind → List Node
  | .number _ _ => []
  | .bool _ => []
  | .lvalue l => l.nodes
  | .paren inner => inner.nodes
  | .unary _ operand => operand.nodes
  | .binary _ left right => left.nodes ++ right.nodes
  | .call _ arguments _ => Expr.allNodes arguments

/-- The nodes of a variable and its indices, itself last. -/
def LValue.nodes : LValue → List Node
  | ⟨id, name, indices, span, symbol, assignable⟩ =>
    Expr.allNodes indices ++ [.lvalue ⟨id, name, indices, span, symbol, assignable⟩]

/-- The nodes of expressions. -/
def Expr.allNodes : List Expr → List Node
  | [] => []
  | e :: es => e.nodes ++ Expr.allNodes es

end

theorem Expr.mem_nodes (e : Expr) : .expr e ∈ e.nodes := by
  obtain ⟨id, kind, span, info⟩ := e
  rw [Expr.nodes]
  exact List.mem_append_right _ List.mem_cons_self

theorem LValue.mem_nodes (l : LValue) : .lvalue l ∈ l.nodes := by
  obtain ⟨id, name, indices, span, symbol, assignable⟩ := l
  rw [LValue.nodes]
  exact List.mem_append_right _ List.mem_cons_self

theorem Expr.mem_allNodes {e : Expr} : ∀ {es : List Expr}, e ∈ es → .expr e ∈ Expr.allNodes es
  | d :: es, h => by
    rw [Expr.allNodes]
    rcases List.mem_cons.mp h with rfl | h
    · exact List.mem_append_left _ (Expr.mem_nodes e)
    · exact List.mem_append_right _ (Expr.mem_allNodes h)

/-! ### Values hold values only -/

mutual

theorem Expr.isValue_nodes : ∀ e : Expr, ∀ n ∈ e.nodes, n.isValue = true
  | ⟨_, kind, _, _⟩ => by
    rw [Expr.nodes]
    exact List.forall_mem_append.mpr ⟨ExprKind.isValue_nodes kind, by simp [Node.isValue]⟩
termination_by structural e => e

theorem ExprKind.isValue_nodes : ∀ k : ExprKind, ∀ n ∈ k.nodes, n.isValue = true
  | .number _ _ => by simp [ExprKind.nodes]
  | .bool _ => by simp [ExprKind.nodes]
  | .lvalue l => by
    rw [ExprKind.nodes]
    exact LValue.isValue_nodes l
  | .paren inner => by
    rw [ExprKind.nodes]
    exact Expr.isValue_nodes inner
  | .unary _ operand => by
    rw [ExprKind.nodes]
    exact Expr.isValue_nodes operand
  | .binary _ left right => by
    rw [ExprKind.nodes]
    exact List.forall_mem_append.mpr ⟨Expr.isValue_nodes left, Expr.isValue_nodes right⟩
  | .call _ arguments _ => by
    rw [ExprKind.nodes]
    exact Expr.isValue_allNodes arguments
termination_by structural k => k

theorem LValue.isValue_nodes : ∀ l : LValue, ∀ n ∈ l.nodes, n.isValue = true
  | ⟨_, _, indices, _, _, _⟩ => by
    rw [LValue.nodes]
    exact List.forall_mem_append.mpr ⟨Expr.isValue_allNodes indices, by simp [Node.isValue]⟩
termination_by structural l => l

theorem Expr.isValue_allNodes : ∀ es : List Expr, ∀ n ∈ Expr.allNodes es, n.isValue = true
  | [] => by simp [Expr.allNodes]
  | e :: es => by
    rw [Expr.allNodes]
    exact List.forall_mem_append.mpr ⟨Expr.isValue_nodes e, Expr.isValue_allNodes es⟩
termination_by structural es => es

end

mutual

/-- The nodes of an initializer, itself last. -/
def Initializer.nodes : Initializer → List Node
  | .scalar id value span => value.nodes ++ [.init (.scalar id value span)]
  | .list id items span => Initializer.allNodes items ++ [.init (.list id items span)]

/-- The nodes of initializers. -/
def Initializer.allNodes : List Initializer → List Node
  | [] => []
  | x :: xs => x.nodes ++ Initializer.allNodes xs

end

mutual

theorem Initializer.isValue_nodes : ∀ x : Initializer, ∀ n ∈ x.nodes, n.isValue = true
  | .scalar _ value _ => by
    rw [Initializer.nodes]
    exact List.forall_mem_append.mpr ⟨Expr.isValue_nodes value, by simp [Node.isValue]⟩
  | .list _ items _ => by
    rw [Initializer.nodes]
    exact List.forall_mem_append.mpr ⟨Initializer.isValue_allNodes items, by simp [Node.isValue]⟩
termination_by structural x => x

theorem Initializer.isValue_allNodes :
    ∀ xs : List Initializer, ∀ n ∈ Initializer.allNodes xs, n.isValue = true
  | [] => by simp [Initializer.allNodes]
  | x :: xs => by
    rw [Initializer.allNodes]
    exact List.forall_mem_append.mpr ⟨Initializer.isValue_nodes x, Initializer.isValue_allNodes xs⟩
termination_by structural xs => xs

end

/-- The nodes of a definition, itself last. -/
def VarDef.nodes (d : VarDef) : List Node :=
  d.init.elim [] Initializer.nodes ++ [.varDef d]

/-- The nodes of a declaration, itself last. -/
def Decl.nodes (d : Decl) : List Node :=
  d.defs.flatMap VarDef.nodes ++ [.decl d]

mutual

/-- The nodes of a statement, itself last. -/
def Stmt.nodes : Stmt → List Node
  | ⟨id, kind, span, hasReturn⟩ => kind.nodes ++ [.stmt ⟨id, kind, span, hasReturn⟩]

/-- The nodes inside a statement of this form. -/
def StmtKind.nodes : StmtKind → List Node
  | .assign target value => target.nodes ++ value.nodes
  | .expr value => value.elim [] Expr.nodes
  | .block b => b.nodes
  | .cond test thenBranch none => test.nodes ++ thenBranch.nodes
  | .cond test thenBranch (some elseBranch) =>
    test.nodes ++ (thenBranch.nodes ++ elseBranch.nodes)
  | .loop test body => test.nodes ++ body.nodes
  | .leave _ => []
  | .next _ => []
  | .ret value _ => value.elim [] Expr.nodes

/-- The nodes of a block, itself last. -/
def Block.nodes : Block → List Node
  | ⟨id, items, span, scope, hasReturn⟩ =>
    BlockItem.allNodes items ++ [.block ⟨id, items, span, scope, hasReturn⟩]

/-- The nodes of the items of a block. -/
def BlockItem.allNodes : List BlockItem → List Node
  | [] => []
  | .decl d :: rest => d.nodes ++ BlockItem.allNodes rest
  | .stmt t :: rest => t.nodes ++ BlockItem.allNodes rest

end

/-! ### Statements hold their nodes -/

theorem Decl.stmt_notMem {t : Stmt} (d : Decl) : .stmt t ∉ d.nodes := by
  intro h
  rcases List.mem_append.mp h with h | h
  · obtain ⟨v, _, hv⟩ := List.mem_flatMap.mp h
    rcases List.mem_append.mp hv with hv | hv
    · cases hinit : v.init with
      | none =>
        rw [hinit] at hv
        cases hv
      | some x =>
        rw [hinit] at hv
        cases x.isValue_nodes _ hv
    · cases List.mem_singleton.mp hv
  · cases List.mem_singleton.mp h

mutual

/-- A statement that is a node of another has its own nodes there. -/
theorem Stmt.nodes_subset {t : Stmt} : ∀ s : Stmt, .stmt t ∈ s.nodes → t.nodes ⊆ s.nodes
  | ⟨id, kind, span, hasReturn⟩, h => by
    rw [Stmt.nodes] at h
    rcases List.mem_append.mp h with h | h
    · rw [Stmt.nodes.eq_1 id]
      exact List.subset_append_of_subset_left _ (StmtKind.nodes_subset kind h)
    · cases List.mem_singleton.mp h
      exact List.Subset.refl _
termination_by structural s => s

theorem StmtKind.nodes_subset {t : Stmt} :
    ∀ k : StmtKind, .stmt t ∈ k.nodes → t.nodes ⊆ k.nodes
  | .assign target value, h => by
    rw [StmtKind.nodes] at h
    rcases List.mem_append.mp h with h | h
    · cases target.isValue_nodes _ h
    · cases value.isValue_nodes _ h
  | .expr none, h => by cases h
  | .expr (some value), h => by cases value.isValue_nodes _ h
  | .block b, h => by
    rw [StmtKind.nodes] at h ⊢
    exact Block.nodes_subset b h
  | .cond test thenBranch none, h => by
    rw [StmtKind.nodes] at h ⊢
    rcases List.mem_append.mp h with h | h
    · cases test.isValue_nodes _ h
    · exact List.subset_append_of_subset_right _ (Stmt.nodes_subset thenBranch h)
  | .cond test thenBranch (some elseBranch), h => by
    rw [StmtKind.nodes] at h ⊢
    rcases List.mem_append.mp h with h | h
    · cases test.isValue_nodes _ h
    · refine List.subset_append_of_subset_right _ ?_
      rcases List.mem_append.mp h with h | h
      · exact List.subset_append_of_subset_left _ (Stmt.nodes_subset thenBranch h)
      · exact List.subset_append_of_subset_right _ (Stmt.nodes_subset elseBranch h)
  | .loop test body, h => by
    rw [StmtKind.nodes] at h ⊢
    rcases List.mem_append.mp h with h | h
    · cases test.isValue_nodes _ h
    · exact List.subset_append_of_subset_right _ (Stmt.nodes_subset body h)
  | .ret none _, h => by cases h
  | .ret (some value) _, h => by cases value.isValue_nodes _ h
  | .leave _, h => by cases h
  | .next _, h => by cases h
termination_by structural k => k

theorem Block.nodes_subset {t : Stmt} : ∀ b : Block, .stmt t ∈ b.nodes → t.nodes ⊆ b.nodes
  | ⟨id, items, span, scope, hasReturn⟩, h => by
    rw [Block.nodes] at h ⊢
    rcases List.mem_append.mp h with h | h
    · exact List.subset_append_of_subset_left _ (BlockItem.nodes_subset items h)
    · cases List.mem_singleton.mp h
termination_by structural b => b

theorem BlockItem.nodes_subset {t : Stmt} :
    ∀ items : List BlockItem, .stmt t ∈ BlockItem.allNodes items →
      t.nodes ⊆ BlockItem.allNodes items
  | [], h => by cases h
  | .decl d :: rest, h => by
    rw [BlockItem.allNodes] at h ⊢
    rcases List.mem_append.mp h with h | h
    · exact absurd h d.stmt_notMem
    · exact List.subset_append_of_subset_right _ (BlockItem.nodes_subset rest h)
  | .stmt s :: rest, h => by
    rw [BlockItem.allNodes] at h ⊢
    rcases List.mem_append.mp h with h | h
    · exact List.subset_append_of_subset_left _ (Stmt.nodes_subset s h)
    · exact List.subset_append_of_subset_right _ (BlockItem.nodes_subset rest h)
termination_by structural items => items

end

/-- The nodes of a function definition, itself last. -/
def FuncDef.nodes (f : FuncDef) : List Node :=
  f.params.map .param ++ (f.body.nodes ++ [.func f])

/-- The nodes of an item of a program. -/
def Item.nodes : Item → List Node
  | decl d => d.nodes
  | func f => f.nodes

/-- The nodes of a program, other than the program itself. -/
def Program.nodes (p : Program) : List Node :=
  p.items.flatMap Item.nodes

end CactLang
