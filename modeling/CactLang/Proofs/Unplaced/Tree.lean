import CactLang.Grammar.Statement
import CactLang.Typing.Statement

/-!
# Trees without positions

`unplaced` forgets every position: of tokens, of nodes and of diagnostics. Two trees that are
unplaced alike differ in the spans of their nodes and in nothing else; identities and what
the type checker found out are kept.

> `Echoes error state value m m'`: on inputs with positions forgotten, `m'` does what `m`
> does, with positions forgotten.
-/

namespace CactLang

/-! ## Tokens and diagnostics -/

/-- The token without its span. -/
def Token.unplaced (t : Token) : Token :=
  { t with span := default }

/-- The cursor without the spans of its tokens. -/
def Cursor.unplaced (c : Cursor) : Cursor :=
  ⟨c.current.unplaced, c.ahead.map Token.unplaced, default, c.nodeCount⟩

/-- The diagnostic without its position. -/
def Diagnostic.unplaced (d : Diagnostic) : Diagnostic :=
  { d with position := default }

/-- The failure without its position. -/
def Typing.Failure.unplaced : Failure → Failure
  | diagnostic d => .diagnostic d.unplaced
  | dangling => .dangling

/-! ## Expressions -/

mutual

/-- The expression without spans. -/
def Expr.unplaced : Expr → Expr
  | ⟨id, .number text kind, _, info⟩ => ⟨id, .number text kind, default, info⟩
  | ⟨id, .bool value, _, info⟩ => ⟨id, .bool value, default, info⟩
  | ⟨id, .lvalue lvalue, _, info⟩ => ⟨id, .lvalue lvalue.unplaced, default, info⟩
  | ⟨id, .paren inner, _, info⟩ => ⟨id, .paren inner.unplaced, default, info⟩
  | ⟨id, .unary operator operand, _, info⟩ =>
    ⟨id, .unary operator operand.unplaced, default, info⟩
  | ⟨id, .binary operator left right, _, info⟩ =>
    ⟨id, .binary operator left.unplaced right.unplaced, default, info⟩
  | ⟨id, .call callee arguments function, _, info⟩ =>
    ⟨id, .call callee (Expr.allUnplaced arguments) function, default, info⟩

/-- The variable without spans. -/
def LValue.unplaced : LValue → LValue
  | ⟨id, name, indices, _, symbol, assignable⟩ =>
    ⟨id, name, Expr.allUnplaced indices, default, symbol, assignable⟩

/-- The expressions without spans. -/
def Expr.allUnplaced : List Expr → List Expr
  | [] => []
  | e :: es => e.unplaced :: Expr.allUnplaced es

end

theorem Expr.allUnplaced_eq_map (es : List Expr) : Expr.allUnplaced es = es.map Expr.unplaced := by
  induction es with
  | nil => rfl
  | cons e es ih => rw [Expr.allUnplaced, ih, List.map_cons]

@[simp] theorem Expr.id_unplaced (e : Expr) : e.unplaced.id = e.id := by
  obtain ⟨id, kind, span, info⟩ := e
  cases kind <;> rfl

@[simp] theorem Expr.span_unplaced (e : Expr) : e.unplaced.span = default := by
  obtain ⟨id, kind, span, info⟩ := e
  cases kind <;> rfl

@[simp] theorem LValue.assignable_unplaced (l : LValue) :
    l.unplaced.assignable = l.assignable := by
  cases l
  rfl

/-! ## Declarations -/

/-- The dimension without its span. -/
def Dimension.unplaced (d : Dimension) : Dimension :=
  { d with span := default }

mutual

/-- The initializer without spans. -/
def Initializer.unplaced : Initializer → Initializer
  | .scalar id value _ => .scalar id value.unplaced default
  | .list id items _ => .list id (Initializer.allUnplaced items) default

/-- The initializers without spans. -/
def Initializer.allUnplaced : List Initializer → List Initializer
  | [] => []
  | x :: xs => x.unplaced :: Initializer.allUnplaced xs

end

theorem Initializer.allUnplaced_eq_map (xs : List Initializer) :
    Initializer.allUnplaced xs = xs.map Initializer.unplaced := by
  induction xs with
  | nil => rfl
  | cons x xs ih => rw [Initializer.allUnplaced, ih, List.map_cons]

/-- The definition without spans. -/
def VarDef.unplaced (d : VarDef) : VarDef :=
  { d with
    dims := d.dims.map Dimension.unplaced
    init := d.init.map Initializer.unplaced
    span := default }

/-- The declaration without spans. -/
def Decl.unplaced (d : Decl) : Decl :=
  { d with defs := d.defs.map VarDef.unplaced, span := default }

/-- The parameter without spans. -/
def Param.unplaced (p : Param) : Param :=
  { p with dims := p.dims.map Dimension.unplaced, span := default }

/-! ## Statements and programs -/

mutual

/-- The statement without spans. -/
def Stmt.unplaced : Stmt → Stmt
  | ⟨id, kind, _, hasReturn⟩ => ⟨id, kind.unplaced, default, hasReturn⟩

/-- The form of a statement without spans. -/
def StmtKind.unplaced : StmtKind → StmtKind
  | .assign target value => .assign target.unplaced value.unplaced
  | .expr value => .expr (value.map Expr.unplaced)
  | .block block => .block block.unplaced
  | .cond test thenBranch none => .cond test.unplaced thenBranch.unplaced none
  | .cond test thenBranch (some elseBranch) =>
    .cond test.unplaced thenBranch.unplaced (some elseBranch.unplaced)
  | .loop test body => .loop test.unplaced body.unplaced
  | .leave target => .leave target
  | .next target => .next target
  | .ret value function => .ret (value.map Expr.unplaced) function

/-- The block without spans. -/
def Block.unplaced : Block → Block
  | ⟨id, items, _, scope, hasReturn⟩ =>
    ⟨id, BlockItem.allUnplaced items, default, scope, hasReturn⟩

/-- The items of a block without spans. -/
def BlockItem.allUnplaced : List BlockItem → List BlockItem
  | [] => []
  | .decl d :: rest => .decl d.unplaced :: BlockItem.allUnplaced rest
  | .stmt t :: rest => .stmt t.unplaced :: BlockItem.allUnplaced rest

end

/-- The item of a block without spans. -/
def BlockItem.unplaced : BlockItem → BlockItem
  | .decl d => .decl d.unplaced
  | .stmt t => .stmt t.unplaced

theorem BlockItem.allUnplaced_eq_map (items : List BlockItem) :
    BlockItem.allUnplaced items = items.map BlockItem.unplaced := by
  induction items with
  | nil => rfl
  | cons item items ih =>
    cases item with
    | decl d => rw [BlockItem.allUnplaced, ih, List.map_cons, BlockItem.unplaced]
    | stmt t => rw [BlockItem.allUnplaced, ih, List.map_cons, BlockItem.unplaced]

/-- The function definition without spans. -/
def FuncDef.unplaced (f : FuncDef) : FuncDef :=
  { f with params := f.params.map Param.unplaced, body := f.body.unplaced, span := default }

/-- The item without spans. -/
def Item.unplaced : Item → Item
  | .decl d => .decl d.unplaced
  | .func f => .func f.unplaced

/-- The program without spans. -/
def Program.unplaced (p : Program) : Program :=
  { p with items := p.items.map Item.unplaced, span := default }

/-! ## Doing the same -/

section

variable {ε ε' σ σ' α α' β β' : Type}

/-- The result with its error, state and value replaced. -/
def mapResult (error : ε → ε') (state : σ → σ') (value : α → α') :
    EStateM.Result ε σ α → EStateM.Result ε' σ' α'
  | .ok a s => .ok (value a) (state s)
  | .error e s => .error (error e) (state s)

/-- On replaced states, `m'` gives the replaced results of `m`. -/
def Echoes (error : ε → ε') (state : σ → σ') (value : α → α') (m : EStateM ε σ α)
    (m' : EStateM ε' σ' α') : Prop :=
  ∀ s, m' (state s) = mapResult error state value (m s)

namespace Echoes

variable {error : ε → ε'} {state : σ → σ'} {value : α → α'} {value' : β → β'}

theorem pure {a : α} {a' : α'} (h : a' = value a) :
    Echoes error state value (Pure.pure a) (Pure.pure a') := by
  intro s
  rw [h]
  rfl

theorem throw {e : ε} {e' : ε'} (h : e' = error e) :
    Echoes error state value (MonadExcept.throw e) (MonadExcept.throw e') := by
  intro s
  rw [h]
  rfl

theorem bind {m : EStateM ε σ α} {m' : EStateM ε' σ' α'} {f : α → EStateM ε σ β}
    {f' : α' → EStateM ε' σ' β'} (hm : Echoes error state value m m')
    (hf : ∀ a, Echoes error state value' (f a) (f' (value a))) :
    Echoes error state value' (m >>= f) (m' >>= f') := by
  intro s
  have hs := hm s
  simp only [Bind.bind, EStateM.bind]
  cases hrun : m s with
  | ok a s₁ =>
    rw [hrun] at hs
    rw [hs]
    exact hf a s₁
  | error e s₁ =>
    rw [hrun] at hs
    rw [hs]
    rfl

theorem map {m : EStateM ε σ α} {m' : EStateM ε' σ' α'} {f : α → β} {f' : α' → β'}
    (hm : Echoes error state value m m') (hf : ∀ a, f' (value a) = value' (f a)) :
    Echoes error state value' (f <$> m) (f' <$> m') := by
  intro s
  have hs := hm s
  simp only [Functor.map, EStateM.map]
  cases hrun : m s with
  | ok a s₁ =>
    rw [hrun] at hs
    rw [hs]
    exact congrArg (EStateM.Result.ok · _) (hf a)
  | error e s₁ =>
    rw [hrun] at hs
    rw [hs]
    rfl

theorem ite {p p' : Prop} [Decidable p] [Decidable p'] {m n : EStateM ε σ α}
    {m' n' : EStateM ε' σ' α'} (hp : p' ↔ p) (hm : Echoes error state value m m')
    (hn : Echoes error state value n n') :
    Echoes error state value (if p then m else n) (if p' then m' else n') := by
  by_cases h : p
  · rw [if_pos h, if_pos (hp.mpr h)]
    exact hm
  · rw [if_neg h, if_neg (mt hp.mp h)]
    exact hn

end Echoes

end

end CactLang
