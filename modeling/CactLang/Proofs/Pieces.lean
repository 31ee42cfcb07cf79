import CactLang.Proofs.Nodes
import CactLang.Proofs.Written

/-!
# What a node is made of

The pieces of a tree are its nodes, the dimensions written at them, and the targets of
assignments. A target has been read as an expression: the node that wrapped the variable is
dropped once the `=` is seen, and the identity it was given is left out of the tree.

Each piece says which pieces stand directly in it, from left to right. What holds of all
pieces is then said of a piece and the ones in it, once for all kinds of nodes.
-/

namespace CactLang

/-- A piece of a program. -/
inductive Piece where
  | node (n : Node)
  | dim (d : Dimension)
  /-- A variable, and around it the node that is dropped. -/
  | target (l : LValue)

/-! ## What stands in a piece -/

/-- What stands directly in an expression of this form. -/
def ExprKind.inner : ExprKind → List Piece
  | .number _ _ => []
  | .bool _ => []
  | .lvalue l => [.node (.lvalue l)]
  | .paren inner => [.node (.expr inner)]
  | .unary _ operand => [.node (.expr operand)]
  | .binary _ left right => [.node (.expr left), .node (.expr right)]
  | .call _ arguments _ => arguments.map fun e => .node (.expr e)

/-- What stands directly in an initializer. -/
def Initializer.inner : Initializer → List Piece
  | .scalar _ value _ => [.node (.expr value)]
  | .list _ items _ => items.map fun x => .node (.init x)

/-- What stands directly in a statement of this form. -/
def StmtKind.inner : StmtKind → List Piece
  | .assign target value => [.target target, .node (.expr value)]
  | .expr value => value.toList.map fun e => .node (.expr e)
  | .block b => [.node (.block b)]
  | .cond test thenBranch elseBranch =>
    .node (.expr test) :: .node (.stmt thenBranch) ::
      elseBranch.toList.map fun t => .node (.stmt t)
  | .loop test body => [.node (.expr test), .node (.stmt body)]
  | .leave _ => []
  | .next _ => []
  | .ret value _ => value.toList.map fun e => .node (.expr e)

/-- An item of a block as a piece. -/
def BlockItem.piece : BlockItem → Piece
  | .decl d => .node (.decl d)
  | .stmt t => .node (.stmt t)

/-- An item of a program as a piece. -/
def Item.piece : Item → Piece
  | .decl d => .node (.decl d)
  | .func f => .node (.func f)

namespace Node

/-- What stands directly in the node. -/
def inner : Node → List Piece
  | expr e => e.kind.inner
  | lvalue l => l.indices.map fun e => .node (.expr e)
  | init x => x.inner
  | varDef d => d.dims.map .dim ++ d.init.toList.map fun x => .node (.init x)
  | decl d => d.defs.map fun d => .node (.varDef d)
  | param p => p.dims.map .dim
  | stmt t => t.kind.inner
  | block b => b.items.map BlockItem.piece
  | func f => (f.params.map fun p => .node (.param p)) ++ [.node (.block f.body)]

/-- The node written out. -/
def parts : Node → List Part
  | expr e => e.parts
  | lvalue l => l.parts
  | init x => x.parts
  | varDef d => d.parts
  | decl d => d.parts
  | param p => p.parts
  | stmt t => t.parts
  | block b => b.parts
  | func f => f.parts

/-- The nodes at and under a node, itself last. -/
def nodes : Node → List Node
  | expr e => e.nodes
  | lvalue l => l.nodes
  | init x => x.nodes
  | varDef d => d.nodes
  | decl d => d.nodes
  | param p => [param p]
  | stmt t => t.nodes
  | block b => b.nodes
  | func f => f.nodes

/-- The variable that the node assigns to. -/
def target? : Node → Option LValue
  | stmt ⟨_, .assign target _, _, _⟩ => some target
  | _ => none

end Node

namespace Piece

/-- What stands directly in the piece. -/
def inner : Piece → List Piece
  | node n => n.inner
  | dim _ => []
  | target l => [.node (.lvalue l)]

/-- The piece written out. -/
def parts : Piece → List Part
  | node n => n.parts
  | dim d => [.dimension d.text]
  | target l => l.parts

/-- Where the piece stands. -/
def span : Piece → Span
  | node n => n.span
  | dim d => d.span
  | target l => l.span

/-- The identities that are handed out for the piece itself: of a target, the one after that
of its variable. -/
def ids : Piece → List NodeId
  | node n => [n.id]
  | dim _ => []
  | target l => [⟨l.id.index + 1⟩]

/-- The nodes at and under a piece. -/
def nodes : Piece → List Node
  | node n => n.nodes
  | dim _ => []
  | target l => l.nodes

/-- The piece as a node. -/
def node? : Piece → Option Node
  | node n => some n
  | _ => none

/-- The variable of a target. -/
def target? : Piece → Option LValue
  | target l => some l
  | _ => none

end Piece

/-! ## Nodes by pieces -/

theorem Expr.allNodes_eq (es : List Expr) :
    Expr.allNodes es = (es.map fun e => Piece.node (.expr e)).flatMap Piece.nodes := by
  induction es with
  | nil => rfl
  | cons e es ih =>
    rw [Expr.allNodes, ih, List.map_cons, List.flatMap_cons]
    rfl

theorem Initializer.allNodes_eq (xs : List Initializer) :
    Initializer.allNodes xs = (xs.map fun x => Piece.node (.init x)).flatMap Piece.nodes := by
  induction xs with
  | nil => rfl
  | cons x xs ih =>
    rw [Initializer.allNodes, ih, List.map_cons, List.flatMap_cons]
    rfl

theorem BlockItem.allNodes_eq (items : List BlockItem) :
    BlockItem.allNodes items = (items.map BlockItem.piece).flatMap Piece.nodes := by
  induction items with
  | nil => rfl
  | cons item items ih =>
    rw [List.map_cons, List.flatMap_cons, ← ih]
    cases item with
    | decl d => rw [BlockItem.allNodes]; rfl
    | stmt t => rw [BlockItem.allNodes]; rfl

theorem ExprKind.nodes_eq (k : ExprKind) : k.nodes = k.inner.flatMap Piece.nodes := by
  cases k with
  | number => simp [ExprKind.nodes, ExprKind.inner]
  | bool => simp [ExprKind.nodes, ExprKind.inner]
  | lvalue => simp [ExprKind.nodes, ExprKind.inner, Piece.nodes, Node.nodes]
  | paren => simp [ExprKind.nodes, ExprKind.inner, Piece.nodes, Node.nodes]
  | unary => simp [ExprKind.nodes, ExprKind.inner, Piece.nodes, Node.nodes]
  | binary => simp [ExprKind.nodes, ExprKind.inner, Piece.nodes, Node.nodes]
  | call _ arguments _ =>
    rw [ExprKind.nodes, ExprKind.inner]
    exact Expr.allNodes_eq arguments

theorem StmtKind.nodes_eq (k : StmtKind) : k.nodes = k.inner.flatMap Piece.nodes := by
  cases k with
  | assign => simp [StmtKind.nodes, StmtKind.inner, Piece.nodes, Node.nodes]
  | expr value => cases value <;> simp [StmtKind.nodes, StmtKind.inner, Piece.nodes, Node.nodes]
  | block => simp [StmtKind.nodes, StmtKind.inner, Piece.nodes, Node.nodes]
  | cond _ _ elseBranch =>
    cases elseBranch <;> simp [StmtKind.nodes, StmtKind.inner, Piece.nodes, Node.nodes]
  | loop => simp [StmtKind.nodes, StmtKind.inner, Piece.nodes, Node.nodes]
  | leave => simp [StmtKind.nodes, StmtKind.inner]
  | next => simp [StmtKind.nodes, StmtKind.inner]
  | ret value => cases value <;> simp [StmtKind.nodes, StmtKind.inner, Piece.nodes, Node.nodes]

namespace Node

/-- Dimensions hold no nodes. -/
theorem flatMap_nodes_dims (dims : List Dimension) :
    (dims.map Piece.dim).flatMap Piece.nodes = [] := by
  induction dims with
  | nil => rfl
  | cons d dims ih => exact ih

/-- The nodes at and under a node are those of the pieces in it, and the node. -/
theorem nodes_eq (n : Node) : n.nodes = n.inner.flatMap Piece.nodes ++ [n] := by
  cases n with
  | expr e =>
    obtain ⟨id, kind, span, info⟩ := e
    rw [nodes, Expr.nodes, ExprKind.nodes_eq, inner]
  | lvalue l =>
    obtain ⟨id, name, indices, span, symbol, assignable⟩ := l
    rw [nodes, LValue.nodes, Expr.allNodes_eq, inner]
  | init x =>
    cases x with
    | scalar id value span => simp [nodes, Initializer.nodes, inner, Initializer.inner, Piece.nodes]
    | list id items span =>
      rw [nodes, Initializer.nodes, Initializer.allNodes_eq, inner, Initializer.inner]
  | varDef d =>
    rw [nodes, VarDef.nodes, inner, List.flatMap_append, flatMap_nodes_dims, List.nil_append]
    cases d.init <;> simp [Piece.nodes, nodes]
  | decl d =>
    rw [nodes, Decl.nodes, inner, List.flatMap_map]
    rfl
  | param p => rw [nodes, inner, flatMap_nodes_dims, List.nil_append]
  | stmt t =>
    obtain ⟨id, kind, span, hasReturn⟩ := t
    rw [nodes, Stmt.nodes, StmtKind.nodes_eq, inner]
  | block b =>
    obtain ⟨id, items, span, scope, hasReturn⟩ := b
    rw [nodes, Block.nodes, BlockItem.allNodes_eq, inner]
  | func f =>
    -- a parameter has no nodes inside
    have hparams : (f.params.map fun p => Piece.node (param p)).flatMap Piece.nodes =
        f.params.map param := by
      rw [List.flatMap_map, List.map_eq_flatMap]
      rfl
    simp [nodes, FuncDef.nodes, inner, hparams, Piece.nodes]

/-- Of what stands in a node, a target is what the node assigns to. -/
theorem filterMap_target?_inner (n : Node) :
    n.inner.filterMap Piece.target? = n.target?.toList := by
  cases n with
  | expr e =>
    obtain ⟨id, kind, span, info⟩ := e
    cases kind <;> simp [inner, ExprKind.inner, target?, Piece.target?, Function.comp_def]
  | init x => cases x <;> simp [inner, Initializer.inner, target?, Piece.target?, Function.comp_def]
  | stmt t =>
    obtain ⟨id, kind, span, hasReturn⟩ := t
    cases kind <;> simp [inner, StmtKind.inner, target?, Piece.target?, Function.comp_def]
  | block b =>
    show (b.items.map BlockItem.piece).filterMap Piece.target? = []
    rw [List.filterMap_eq_nil_iff]
    intro x hx
    obtain ⟨item, _, rfl⟩ := List.mem_map.mp hx
    cases item <;> rfl
  | lvalue | varDef | decl | param | func =>
    simp [inner, target?, Piece.target?, Function.comp_def]

end Node

namespace Piece

/-- The nodes at and under a piece are those of the pieces in it, and the piece if it is a
node. -/
theorem nodes_eq (x : Piece) : x.nodes = x.inner.flatMap Piece.nodes ++ x.node?.toList := by
  cases x with
  | node n => exact n.nodes_eq
  | dim d => rfl
  | target l => simp [nodes, inner, node?, Node.nodes]

end Piece

theorem Program.nodes_eq (p : Program) :
    p.nodes = (p.items.map Item.piece).flatMap Piece.nodes := by
  rw [Program.nodes, List.flatMap_map]
  congr 1
  funext item
  cases item <;> rfl

/-! ## Everything is written -/

theorem LValue.parts_ne_nil (l : LValue) : l.parts ≠ [] := by
  cases l
  simp

theorem Expr.parts_ne_nil : ∀ e : Expr, e.parts ≠ []
  | ⟨_, .number .., _, _⟩ => by simp
  | ⟨_, .bool _, _, _⟩ => by simp
  | ⟨_, .lvalue l, _, _⟩ => by
    rw [Expr.parts]
    exact l.parts_ne_nil
  | ⟨_, .paren _, _, _⟩ => by simp
  | ⟨_, .unary _ operand, _, _⟩ => by
    rw [Expr.parts]
    exact List.append_ne_nil_of_right_ne_nil _ (Expr.parts_ne_nil operand)
  | ⟨_, .binary _ left _, _, _⟩ => by
    rw [Expr.parts]
    exact List.append_ne_nil_of_left_ne_nil (Expr.parts_ne_nil left) _
  | ⟨_, .call .., _, _⟩ => by simp

theorem Initializer.parts_ne_nil (x : Initializer) : x.parts ≠ [] := by
  cases x with
  | scalar _ value _ =>
    rw [Initializer.parts]
    exact value.parts_ne_nil
  | list => simp

theorem Block.parts_ne_nil (b : Block) : b.parts ≠ [] := by
  cases b
  simp

theorem Stmt.parts_ne_nil (t : Stmt) : t.parts ≠ [] := by
  obtain ⟨id, kind, span, hasReturn⟩ := t
  cases kind with
  | assign => simp
  | expr value => cases value <;> simp
  | block b =>
    rw [Stmt.parts]
    exact b.parts_ne_nil
  | cond _ _ elseBranch => cases elseBranch <;> simp
  | loop => simp
  | leave => simp
  | next => simp
  | ret value => cases value <;> simp

theorem Node.parts_ne_nil : ∀ n : Node, n.parts ≠ []
  | .expr e => e.parts_ne_nil
  | .lvalue l => l.parts_ne_nil
  | .init x => x.parts_ne_nil
  | .varDef _ => List.cons_ne_nil _ _
  | .decl _ => List.append_ne_nil_of_right_ne_nil _ (List.cons_ne_nil _ _)
  | .param _ => List.cons_ne_nil _ _
  | .stmt t => t.parts_ne_nil
  | .block b => b.parts_ne_nil
  | .func _ => List.cons_ne_nil _ _

theorem Piece.parts_ne_nil : ∀ x : Piece, x.parts ≠ []
  | .node n => n.parts_ne_nil
  | .dim _ => List.cons_ne_nil _ _
  | .target l => l.parts_ne_nil

/-- A part is read from a word at least. -/
theorem Part.ne_nil_of_spells {p : Part} {ws : List Word} (h : p.Spells ws) : ws ≠ [] := by
  cases p with
  | word w =>
    rw [show ws = [w] from h]
    exact List.cons_ne_nil _ _
  | dimension text =>
    rcases h with rfl | ⟨digits, _, rfl⟩
    · exact List.cons_ne_nil _ _
    · exact List.cons_ne_nil _ _

theorem Piece.ne_nil_of_spelled {x : Piece} {ws : List Word} (h : Spelled x.parts ws) :
    ws ≠ [] := by
  cases hparts : x.parts with
  | nil => exact absurd hparts x.parts_ne_nil
  | cons p ps =>
    rw [hparts] at h
    obtain ⟨u, v, rfl, hu, _⟩ := h
    exact List.append_ne_nil_of_left_ne_nil (Part.ne_nil_of_spells hu) v

end CactLang
