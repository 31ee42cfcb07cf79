import CactLang.Typing.Statement

/-!
# How checks are put together

A check leaves a state behind whether it passes or fails. This module says what state
that is for the ways in which checks are combined, and packs the walk over statements
and blocks into one principle.

> `Composes P Q`: `P` and `Q` are closed under the ways in which statements (`P`) and
> the items of a block (`Q`) are put together.

A property of checks that composes holds of every statement and every block, whatever
becomes of them, so a fact about the registry or the context needs no walk of its own.
-/

namespace CactLang.Typing

variable {α β : Type}

/-! ## The state left behind -/

/-- The state a check leaves, whether it passed or failed. -/
def Check.after (m : Check α) (s : State) : State :=
  match m s with
  | .ok _ s' => s'
  | .error _ s' => s'

theorem Check.after_of_ok {m : Check α} {s s' : State} {a : α} (h : m s = .ok a s') :
    m.after s = s' := by
  rw [Check.after, h]

theorem Check.after_of_error {m : Check α} {s s' : State} {e : Failure}
    (h : m s = .error e s') : m.after s = s' := by
  rw [Check.after, h]

/-- A sequence goes on from where its first part passed, and stops where it failed. -/
theorem Check.after_bind (x : Check α) (f : α → Check β) (s : State) :
    (x >>= f).after s =
      match x s with
      | .ok a s₁ => (f a).after s₁
      | .error _ s₁ => s₁ := by
  unfold Check.after
  simp only [Bind.bind, EStateM.bind]
  cases x s <;> rfl

theorem Check.after_map (f : α → β) (m : Check α) (s : State) : (f <$> m).after s = m.after s := by
  unfold Check.after
  simp only [Functor.map, EStateM.map]
  cases m s <;> rfl

/-- A part leaves its registry, and the context as the whole says. -/
theorem Check.after_within (enter : Context → Context) (leave : Context → Context → Context)
    (part : Check α) (s : State) :
    (Check.within enter leave part).after s =
      ⟨(part.after ⟨s.registry, enter s.context⟩).registry,
        leave s.context (part.after ⟨s.registry, enter s.context⟩).context⟩ := by
  unfold Check.after Check.within
  cases part ⟨s.registry, enter s.context⟩ <;> rfl

/-- The state a part is checked in that has a scope of its own. -/
def State.inScope (s : State) : State :=
  ⟨(s.registry.newScope s.context.scope).2,
    { s.context with scope := (s.registry.newScope s.context.scope).1 }⟩

/-- The scope is added first, and the context gets its scope back only if the part passes. -/
theorem Check.inScope_apply (part : Check α) (s : State) :
    Check.inScope part s =
      match part s.inScope with
      | .ok a s' => .ok (⟨s.registry.scopes.size⟩, a)
        { s' with context := { s'.context with scope := s.context.scope } }
      | .error e s' => .error e
        { s' with context := { s'.context with scope := s.context.scope } } := by
  simp only [Check.inScope, Bind.bind, EStateM.bind, Check.declare, Check.within, State.inScope]
  cases part ⟨(s.registry.newScope s.context.scope).2,
    { s.context with scope := (s.registry.newScope s.context.scope).1 }⟩ <;> rfl

/-- A part in a scope of its own leaves its registry. -/
theorem Check.after_inScope (part : Check α) (s : State) :
    (Check.inScope part).after s =
      ⟨(part.after s.inScope).registry,
        { (part.after s.inScope).context with scope := s.context.scope }⟩ := by
  unfold Check.after
  rw [Check.inScope_apply]
  cases part s.inScope <;> rfl

/-! ## Checks that only read -/

/-- The check leaves every state as it found it. -/
def Reads (m : Check α) : Prop :=
  ∀ s, m.after s = s

namespace Reads

theorem pure (a : α) : Reads (Pure.pure a : Check α) :=
  fun _ => rfl

theorem look (f : Registry → Context → Except Failure α) : Reads (Check.look f) := by
  intro s
  unfold Check.after Check.look
  cases f s.registry s.context <;> rfl

/-- Two checks that only read do so in a row. -/
theorem bind {x : Check α} {f : α → Check β} (hx : Reads x) (hf : ∀ a, Reads (f a)) :
    Reads (x >>= f) := by
  intro s
  have hs := hx s
  rw [Check.after_bind]
  cases h : x s with
  | ok a s₁ =>
    obtain rfl : s₁ = s := (Check.after_of_ok h).symm.trans hs
    exact hf a s₁
  | error e s₁ => exact (Check.after_of_error h).symm.trans hs

theorem map {x : Check α} (f : α → β) (hx : Reads x) : Reads (f <$> x) := by
  intro s
  rw [Check.after_map]
  exact hx s

/-- What only reads may follow and leaves what was left. -/
theorem after_bind {x : Check α} {f : α → Check β} (hf : ∀ a, Reads (f a)) (s : State) :
    (x >>= f).after s = x.after s := by
  rw [Check.after_bind]
  cases h : x s with
  | ok a s₁ => exact (hf a s₁).trans (Check.after_of_ok h).symm
  | error e s₁ => exact (Check.after_of_error h).symm

end Reads

/-- A condition declares nothing. -/
theorem condition_reads (e : Expr) : Reads (condition e) := by
  refine (Reads.look _).bind fun p => ?_
  obtain ⟨e', info⟩ := p
  dsimp only
  split
  · exact .pure _
  · exact .look _

/-- An assignment declares nothing. -/
theorem assignment_reads (target : LValue) (value : Expr) : Reads (assignment target value) := by
  refine (Reads.look _).bind fun p => ?_
  obtain ⟨target', ty⟩ := p
  dsimp only
  split
  · exact .look _
  · refine (Reads.look _).bind fun q => ?_
    obtain ⟨value', info⟩ := q
    dsimp only
    split
    · exact .pure _
    · exact .look _

/-- A return declares nothing. -/
theorem returning_reads (id : NodeId) (span : Span) (value : Option Expr) :
    Reads (returning id span value) := by
  refine (Reads.look _).bind fun p => ?_
  obtain ⟨function, expected⟩ := p
  cases value with
  | none =>
    dsimp only
    split
    · exact .pure _
    · exact .look _
  | some e =>
    refine (Reads.look _).bind fun q => ?_
    obtain ⟨e', info⟩ := q
    dsimp only
    split
    · exact .pure _
    · exact .look _

/-! ## The walk over statements and blocks -/

/-- `P` and `Q` are closed under the ways in which statements (`P`) and the items of a
block (`Q`) are put together. Only items of a block declare names, and a block is made of
its items by giving them a scope. -/
structure Composes (P Q : (α : Type) → Check α → Prop) : Prop where
  reads : ∀ {α : Type} {m : Check α}, Reads m → P α m
  bind : ∀ {α β : Type} {x : Check α} {f : α → Check β}, P α x → (∀ a, P β (f a)) →
    P β (x >>= f)
  weaken : ∀ {α : Type} {m : Check α}, P α m → Q α m
  bindItem : ∀ {α β : Type} {x : Check α} {f : α → Check β}, Q α x → (∀ a, Q β (f a)) →
    Q β (x >>= f)
  bindName : ∀ (id : NodeId) (span : Span) (name : String) (y : Symbol),
    Q SymbolId (bindName id span name y)
  inLoop : ∀ {α : Type} (loop : NodeId) {part : Check α}, P α part → P α (Check.inLoop loop part)
  inScope : ∀ {α : Type} {part : Check α}, Q α part → P (ScopeId × α) (Check.inScope part)

namespace Composes

variable {P Q : (α : Type) → Check α → Prop}

theorem pure (h : Composes P Q) (a : α) : P α (Pure.pure a) :=
  h.reads (.pure a)

theorem pureItem (h : Composes P Q) (a : α) : Q α (Pure.pure a) :=
  h.weaken (h.pure a)

/-! ### Declarations -/

/-- A definition is a look, a check of initial values and a binding. -/
theorem varDef (h : Composes P Q) (isConstant : Bool) (basic : BasicType) (d : VarDef) :
    Q VarDef (varDef isConstant basic d) := by
  unfold Typing.varDef
  have hname : ∀ ty init, Q VarDef (do
      let symbol ← Typing.bindName d.id d.span d.name (declaredSymbol isConstant d ty)
      return { d with init, symbol := some symbol }) := fun ty init =>
    h.bindItem (h.bindName _ _ _ _) fun _ => h.pureItem _
  refine h.bindItem (h.weaken (h.reads (.look _))) fun ty => ?_
  dsimp only
  cases d.init with
  | none => exact h.bindItem (h.pureItem none) (hname ty)
  | some init => exact h.bindItem (h.weaken (h.reads ((Reads.look _).map some))) (hname ty)

/-- Definitions are put together along the list. -/
theorem varDefs (h : Composes P Q) (isConstant : Bool) (basic : BasicType) :
    ∀ ds : List VarDef, Q (List VarDef) (varDefs isConstant basic ds)
  | [] => h.pureItem _
  | d :: ds => h.bindItem (h.varDef isConstant basic d) fun _ =>
    h.bindItem (varDefs h isConstant basic ds) fun _ => h.pureItem _

theorem decl (h : Composes P Q) (d : Decl) : Q Decl (decl d) :=
  h.bindItem (h.varDefs d.isConstant d.basic d.defs) fun _ => h.pureItem _

/-! ### Statements -/

mutual

/-- Statements are put together as the tree is. -/
theorem stmt (h : Composes P Q) : ∀ t : Stmt, P Stmt (stmt t)
  | ⟨_, .assign target value, _, _⟩ => by
    rw [Typing.stmt]
    exact h.bind (h.reads (assignment_reads target value)) fun _ => h.pure _
  | ⟨_, .expr none, _, _⟩ => by
    rw [Typing.stmt]
    exact h.pure _
  | ⟨_, .expr (some value), _, _⟩ => by
    rw [Typing.stmt]
    exact h.bind (h.reads (.look _)) fun _ => h.pure _
  | ⟨_, .block b, _, _⟩ => by
    rw [Typing.stmt]
    exact h.bind (block h b) fun _ => h.pure _
  | ⟨_, .cond test thenBranch none, _, _⟩ => by
    rw [Typing.stmt]
    exact h.bind (h.reads (condition_reads test)) fun _ => h.bind (stmt h thenBranch) fun _ =>
      h.pure _
  | ⟨_, .cond test thenBranch (some elseBranch), _, _⟩ => by
    rw [Typing.stmt]
    exact h.bind (h.reads (condition_reads test)) fun _ => h.bind (stmt h thenBranch) fun _ =>
      h.bind (stmt h elseBranch) fun _ => h.pure _
  | ⟨id, .loop test body, _, _⟩ => by
    rw [Typing.stmt]
    exact h.bind (h.reads (condition_reads test)) fun _ =>
      h.bind (h.inLoop id (stmt h body)) fun _ => h.pure _
  | ⟨_, .leave _, _, _⟩ => by
    rw [Typing.stmt]
    exact h.bind (h.reads (.look _)) fun _ => h.pure _
  | ⟨_, .next _, _, _⟩ => by
    rw [Typing.stmt]
    exact h.bind (h.reads (.look _)) fun _ => h.pure _
  | ⟨id, .ret value _, span, _⟩ => by
    rw [Typing.stmt]
    exact h.bind (h.reads (returning_reads id span value)) fun _ => h.pure _

theorem block (h : Composes P Q) : ∀ b : Block, P Block (block b)
  | ⟨_, items, _, _, _⟩ => by
    rw [Typing.block]
    exact h.bind (h.inScope (blockItems h items)) fun _ => h.pure _

theorem blockItems (h : Composes P Q) :
    ∀ items : List BlockItem, Q (List BlockItem × Bool) (blockItems items)
  | [] => by
    rw [Typing.blockItems]
    exact h.pureItem _
  | .decl d :: rest => by
    rw [Typing.blockItems]
    exact h.bindItem (h.decl d) fun _ => h.bindItem (blockItems h rest) fun _ => h.pureItem _
  | .stmt t :: rest => by
    rw [Typing.blockItems]
    exact h.bindItem (h.weaken (stmt h t)) fun _ => h.bindItem (blockItems h rest) fun _ =>
      h.pureItem _

end

end Composes

end CactLang.Typing
