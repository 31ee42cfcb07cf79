import CactLang.Grammar.Statement
import CactLang.Proofs.Growth
import CactLang.Token.Scan

/-!
# What an accepted statement is made of

The counterpart of `Accepted.Expression` for the checks that carry a state: one
lemma for each form says exactly when checking passes, and which tree and state it
gives. Since every part gives the context back, the state after a check is the
state before it with another registry.
-/

namespace CactLang.Typing

/-! ## Checks in general -/

section

variable {α β : Type} {s s' : State}

/-- Two checks pass one after the other if the first does, and the second from where it leaves
off. -/
theorem Check.bind_ok {x : Check α} {f : α → Check β} {b : β} :
    (x >>= f) s = .ok b s' ↔ ∃ a s₁, x s = .ok a s₁ ∧ f a s₁ = .ok b s' := by
  simp only [bind, EStateM.bind]
  cases x s <;> simp

theorem Check.pure_ok {a b : α} : (pure a : Check α) s = .ok b s' ↔ a = b ∧ s = s' := by
  simp [pure, EStateM.pure]

theorem Check.map_ok {x : Check α} {f : α → β} {b : β} :
    (f <$> x) s = .ok b s' ↔ ∃ a, x s = .ok a s' ∧ f a = b := by
  simp only [Functor.map, EStateM.map]
  cases x s with
  | ok a s₁ =>
    simp only [EStateM.Result.ok.injEq]
    constructor
    · intro h
      exact ⟨a, ⟨rfl, h.2⟩, h.1⟩
    · intro h
      obtain ⟨a', ⟨rfl, rfl⟩, rfl⟩ := h
      exact ⟨rfl, rfl⟩
  | error e s₁ => simp

/-- A look passes if what it asks for does, and changes nothing. -/
theorem Check.look_ok {f : Registry → Context → Except Failure α} {a : α} :
    Check.look f s = .ok a s' ↔ f s.registry s.context = .ok a ∧ s = s' := by
  unfold Check.look
  cases f s.registry s.context <;> simp

/-- A declaration passes if the registry takes it, and changes the registry only. -/
theorem Check.declare_ok {f : Registry → Context → Except Failure (α × Registry)} {a : α} :
    Check.declare f s = .ok a s' ↔
      ∃ r, f s.registry s.context = .ok (a, r) ∧ s' = { s with registry := r } := by
  unfold Check.declare
  cases f s.registry s.context with
  | error e => simp
  | ok p =>
    obtain ⟨a', r⟩ := p
    simp only [EStateM.Result.ok.injEq, Except.ok.injEq, Prod.mk.injEq]
    constructor
    · intro h
      exact ⟨r, ⟨h.1, rfl⟩, h.2.symm⟩
    · intro h
      obtain ⟨r', ⟨ha, rfl⟩, rfl⟩ := h
      exact ⟨ha, rfl⟩

/-- A part passes in its own context if it does so there. -/
theorem Check.within_ok {enter : Context → Context} {leave : Context → Context → Context}
    {part : Check α} {a : α} :
    Check.within enter leave part s = .ok a s' ↔
      ∃ s₁, part ⟨s.registry, enter s.context⟩ = .ok a s₁ ∧
        s' = ⟨s₁.registry, leave s.context s₁.context⟩ := by
  unfold Check.within
  cases part ⟨s.registry, enter s.context⟩ with
  | error e s₁ => simp
  | ok a' s₁ =>
    simp only [EStateM.Result.ok.injEq]
    constructor
    · intro h
      exact ⟨s₁, ⟨h.1, rfl⟩, h.2.symm⟩
    · intro h
      obtain ⟨_, ⟨ha, rfl⟩, rfl⟩ := h
      exact ⟨ha, rfl⟩

/-- A part passes in a scope of its own if it does so there. The scope is the next one. -/
theorem Check.inScope_ok {part : Check α} {c : ScopeId} {a : α} :
    Check.inScope part s = .ok (c, a) s' ↔
      ∃ s₁, part s.inScope = .ok a s₁ ∧ c = ⟨s.registry.scopes.size⟩ ∧
        s' = ⟨s₁.registry, { s₁.context with scope := s.context.scope }⟩ := by
  rw [Check.inScope_apply]
  cases part s.inScope with
  | error e s₁ => simp
  | ok a' s₁ =>
    simp only [EStateM.Result.ok.injEq, Prod.mk.injEq]
    constructor
    · intro h
      exact ⟨s₁, ⟨h.1.2, rfl⟩, h.1.1.symm, h.2.symm⟩
    · intro h
      obtain ⟨_, ⟨ha, rfl⟩, rfl, rfl⟩ := h
      exact ⟨⟨rfl, ha⟩, rfl⟩

/-- The state a loop's body is checked in. -/
def State.inLoop (s : State) (loop : NodeId) : State :=
  { s with context := { s.context with loops := loop :: s.context.loops } }

/-- A part that keeps the context leaves its loop with it. -/
theorem Check.inLoop_ok {gains : ScopeId → Option ScopeId} {part : Check α}
    (hpart : Keeps gains part) {loop : NodeId} {a : α} :
    Check.inLoop loop part s = .ok a s' ↔
      ∃ s₁, part (s.inLoop loop) = .ok a s₁ ∧ s' = ⟨s₁.registry, s.context⟩ := by
  have hback : ∀ {s₁ : State}, part (s.inLoop loop) = .ok a s₁ →
      { s₁.context with loops := s₁.context.loops.tail } = s.context := by
    -- the part gives its context back, with the loop on top
    intro s₁ h
    rw [(hpart.ok h).1]
    rfl
  unfold Check.inLoop
  rw [Check.within_ok]
  constructor
  · intro h
    obtain ⟨s₁, hp, rfl⟩ := h
    exact ⟨s₁, hp, by rw [hback hp]⟩
  · intro h
    obtain ⟨s₁, hp, rfl⟩ := h
    exact ⟨s₁, hp, by rw [hback hp]⟩

end

/-! ## Declarations -/

section

variable {s s' : State}

/-- A name is bound if the registry takes it. -/
theorem bindName_ok {id : NodeId} {span : Span} {name : String} {y : Symbol} {v : SymbolId} :
    bindName id span name y s = .ok v s' ↔
      ∃ r, s.registry.register s.context.scope name y = .ok (v, r) ∧
        s' = { s with registry := r } := by
  unfold bindName
  rw [Check.declare_ok]
  simp only [locateRefusal_ok]

theorem initializer_ok {target : Ty} {depth : Nat} {x x' : Initializer} :
    initializer target depth x s = .ok x' s' ↔
      checkInitializer s.registry s.context.scope target depth x = .ok x' ∧ s = s' :=
  Check.look_ok

/-- Related options are both absent, or have related values. -/
theorem rel_cases {α β : Type} {R : α → β → Prop} {x : Option α} {y : Option β}
    (h : Option.Rel R x y) :
    (x = none ∧ y = none) ∨ ∃ a b, x = some a ∧ y = some b ∧ R a b := by
  cases h with
  | none => exact Or.inl ⟨rfl, rfl⟩
  | some hab => exact Or.inr ⟨_, _, rfl, rfl, hab⟩

/-- A definition passes if its dimensions do, then its initializer, and then its name
is new. The name is bound last. -/
theorem varDef_ok {isConstant : Bool} {basic : BasicType} {d d' : VarDef} :
    varDef isConstant basic d s = .ok d' s' ↔
      ∃ ty init v r, typeOf basic d.dims false d.id = .ok ty ∧
        Option.Rel (fun x x' => checkInitializer s.registry s.context.scope ty 0 x = .ok x')
          d.init init ∧
        s.registry.register s.context.scope d.name (declaredSymbol isConstant d ty) = .ok (v, r) ∧
        d' = { d with init, symbol := some v } ∧ s' = { s with registry := r } := by
  unfold varDef
  cases hd : d.init with
  | none =>
    simp only [Check.bind_ok, Check.look_ok, Check.pure_ok, bindName_ok]
    constructor
    · intro h
      obtain ⟨ty, _, ⟨hty, rfl⟩, init, _, ⟨rfl, rfl⟩, v, _, ⟨r, hr, rfl⟩, rfl, rfl⟩ := h
      exact ⟨ty, none, v, r, hty, .none, hr, rfl, rfl⟩
    · intro h
      obtain ⟨ty, init, v, r, hty, hrel, hr, rfl, rfl⟩ := h
      cases hrel
      exact ⟨ty, _, ⟨hty, rfl⟩, none, _, ⟨rfl, rfl⟩, v, _, ⟨r, hr, rfl⟩, rfl, rfl⟩
  | some x =>
    simp only [Check.bind_ok, Check.look_ok, Check.pure_ok, Check.map_ok, bindName_ok,
      initializer_ok]
    constructor
    · intro h
      obtain ⟨ty, _, ⟨hty, rfl⟩, init, _, ⟨x', ⟨hx, rfl⟩, rfl⟩, v, _, ⟨r, hr, rfl⟩, rfl, rfl⟩ := h
      exact ⟨ty, some x', v, r, hty, .some hx, hr, rfl, rfl⟩
    · intro h
      obtain ⟨ty, init, v, r, hty, hrel, hr, rfl, rfl⟩ := h
      cases hrel with
      | some hx =>
        exact ⟨ty, _, ⟨hty, rfl⟩, _, _, ⟨_, ⟨hx, rfl⟩, rfl⟩, v, _, ⟨r, hr, rfl⟩, rfl, rfl⟩

theorem declaredSymbol_ty (isConstant : Bool) (d : VarDef) (ty : Ty) :
    (declaredSymbol isConstant d ty).ty = ty := by
  cases isConstant <;> rfl

theorem declaredSymbol_isConstant (isConstant : Bool) (d : VarDef) (ty : Ty) :
    (declaredSymbol isConstant d ty).isConstant = isConstant := by
  cases isConstant <;> rfl

theorem varDefs_nil_ok {isConstant : Bool} {basic : BasicType} {ds' : List VarDef} :
    varDefs isConstant basic [] s = .ok ds' s' ↔ ds' = [] ∧ s' = s := by
  simp only [varDefs, Check.pure_ok]
  exact and_congr eq_comm eq_comm

/-- The definitions of a declaration pass one after the other. -/
theorem varDefs_cons_ok {isConstant : Bool} {basic : BasicType} {d : VarDef}
    {ds ds' : List VarDef} :
    varDefs isConstant basic (d :: ds) s = .ok ds' s' ↔
      ∃ x xs s₁, varDef isConstant basic d s = .ok x s₁ ∧
        varDefs isConstant basic ds s₁ = .ok xs s' ∧ ds' = x :: xs := by
  simp only [varDefs, Check.bind_ok, Check.pure_ok]
  constructor
  · intro h
    obtain ⟨x, s₁, hx, xs, _, hxs, rfl, rfl⟩ := h
    exact ⟨x, xs, s₁, hx, hxs, rfl⟩
  · intro h
    obtain ⟨x, xs, s₁, hx, hxs, rfl⟩ := h
    exact ⟨x, s₁, hx, xs, _, hxs, rfl, rfl⟩

/-- A declaration passes if its definitions do. -/
theorem decl_ok {d d' : Decl} :
    decl d s = .ok d' s' ↔
      ∃ defs, varDefs d.isConstant d.basic d.defs s = .ok defs s' ∧ d' = { d with defs } := by
  simp only [decl, Check.bind_ok, Check.pure_ok]
  constructor
  · intro h
    obtain ⟨defs, _, hdefs, rfl, rfl⟩ := h
    exact ⟨defs, hdefs, rfl⟩
  · intro h
    obtain ⟨defs, hdefs, rfl⟩ := h
    exact ⟨defs, _, hdefs, rfl, rfl⟩

/-- A parameter passes if its dimensions do and its name is new; the function has the
parameter from then on. -/
theorem param_ok {function : FunctionId} {p p' : Param} :
    param function p s = .ok p' s' ↔
      ∃ ty r₁ v r₂, typeOf p.basic p.dims p.isOpen p.id = .ok ty ∧
        s.registry.addParameter function ⟨p.name, ty⟩ = .ok r₁ ∧
        r₁.register s.context.scope p.name (.ofParameter p.name ty) = .ok (v, r₂) ∧
        p' = { p with symbol := some v } ∧ s' = { s with registry := r₂ } := by
  simp only [param, Check.bind_ok, Check.look_ok, Check.declare_ok, Check.pure_ok, bindName_ok,
    locateRefusal_ok, Registry.map_pair_ok]
  constructor
  · intro h
    obtain ⟨ty, _, ⟨hty, rfl⟩, _, _, ⟨r₁, hr₁, rfl⟩, v, _, ⟨r₂, hr₂, rfl⟩, rfl, rfl⟩ := h
    exact ⟨ty, r₁, v, r₂, hty, hr₁, hr₂, rfl, rfl⟩
  · intro h
    obtain ⟨ty, r₁, v, r₂, hty, hr₁, hr₂, rfl, rfl⟩ := h
    exact ⟨ty, _, ⟨hty, rfl⟩, (), _, ⟨r₁, hr₁, rfl⟩, v, _, ⟨r₂, hr₂, rfl⟩, rfl, rfl⟩

theorem params_nil_ok {function : FunctionId} {ps' : List Param} :
    params function [] s = .ok ps' s' ↔ ps' = [] ∧ s' = s := by
  simp only [params, Check.pure_ok]
  exact and_congr eq_comm eq_comm

/-- The parameters of a function pass one after the other. -/
theorem params_cons_ok {function : FunctionId} {p : Param} {ps ps' : List Param} :
    params function (p :: ps) s = .ok ps' s' ↔
      ∃ x xs s₁, param function p s = .ok x s₁ ∧ params function ps s₁ = .ok xs s' ∧
        ps' = x :: xs := by
  simp only [params, Check.bind_ok, Check.pure_ok]
  constructor
  · intro h
    obtain ⟨x, s₁, hx, xs, _, hxs, rfl, rfl⟩ := h
    exact ⟨x, xs, s₁, hx, hxs, rfl⟩
  · intro h
    obtain ⟨x, xs, s₁, hx, hxs, rfl⟩ := h
    exact ⟨x, s₁, hx, xs, _, hxs, rfl, rfl⟩

/-- Parameters leave the context as it is. -/
theorem params_context {function : FunctionId} :
    ∀ {ps ps' : List Param} {s s' : State}, params function ps s = .ok ps' s' →
      s'.context = s.context
  | [], _, _, _, h => by
    rw [(params_nil_ok.mp h).2]
  | p :: ps, _, s, s', h => by
    obtain ⟨x, xs, s₁, hx, hxs, _⟩ := params_cons_ok.mp h
    obtain ⟨_, _, _, _, _, _, _, _, rfl⟩ := param_ok.mp hx
    rw [params_context hxs]

/-- Variables stay while parameters are added. -/
theorem params_symbol {function : FunctionId} {v : SymbolId} {y : Symbol} :
    ∀ {ps ps' : List Param} {s s' : State}, params function ps s = .ok ps' s' →
      s.registry.symbol? v = some y → s'.registry.symbol? v = some y
  | [], _, _, _, h, hy => by
    rw [(params_nil_ok.mp h).2]
    exact hy
  | p :: ps, _, s, s', h, hy => by
    obtain ⟨x, xs, s₁, hx, hxs, _⟩ := params_cons_ok.mp h
    obtain ⟨_, r₁, _, r₂, _, hadd, hreg, _, rfl⟩ := param_ok.mp hx
    obtain ⟨_, _, rfl⟩ := Registry.addParameter_ok.mp hadd
    obtain ⟨_, hscope, _, _, _, rfl⟩ := Registry.register_ok.mp hreg
    exact params_symbol hxs ((Registry.bound_grows hscope).symbol hy)

/-- The parameters of a function that are declared with given types. -/
def declaredParameters (ps : List Param) (tys : List Ty) : List Parameter :=
  List.zipWith (fun p ty => ⟨p.name, ty⟩) ps tys

/-- What parameters leave behind: the function has them after those it had, and apart
from that only the current scope has gained bindings. -/
theorem params_grows {function : FunctionId} :
    ∀ {ps ps' : List Param} {s s' : State} {f : Signature}, params function ps s = .ok ps' s' →
      s.registry.function? function = some f →
      ∃ tys, List.Forall₂ (fun p ty => typeOf p.basic p.dims p.isOpen p.id = .ok ty) ps tys ∧
        Registry.Grows (some s.context.scope) (s.registry.updated function
          { f with parameters := f.parameters ++ declaredParameters ps tys }) s'.registry
  | [], _, s, s', f, h, hf => by
    obtain ⟨_, rfl⟩ := params_nil_ok.mp h
    refine ⟨[], .nil, ?_⟩
    simp only [declaredParameters, List.zipWith_nil_left, List.append_nil]
    rw [Registry.updated_self hf]
    exact Registry.Grows.refl _ _
  | p :: ps, _, s, s', f, h, hf => by
    obtain ⟨x, xs, s₁, hx, hxs, _⟩ := params_cons_ok.mp h
    obtain ⟨ty, r₁, v, r₂, hty, hadd, hreg, _, rfl⟩ := param_ok.mp hx
    obtain ⟨f', hf', rfl⟩ := Registry.addParameter_ok.mp hadd
    obtain rfl : f = f' := Option.some.inj (hf.symm.trans hf')
    obtain ⟨sc, hsc, _, _, _, rfl⟩ := Registry.register_ok.mp hreg
    have hlt := (Array.getElem?_eq_some_iff.mp hf).1
    -- the rest is checked with one parameter more in the signature
    obtain ⟨tys, htys, hgrows⟩ := params_grows hxs
      (f := { f with parameters := f.parameters ++ [⟨p.name, ty⟩] })
      (Array.getElem?_setIfInBounds_self_of_lt hlt)
    refine ⟨ty :: tys, .cons hty htys, ?_⟩
    have hparameters : f.parameters ++ declaredParameters (p :: ps) (ty :: tys) =
        (f.parameters ++ [⟨p.name, ty⟩]) ++ declaredParameters ps tys := by
      rw [List.append_assoc]
      rfl
    -- the variable is bound in a registry that has all the parameters already
    have hb : Registry.Grows (some s.context.scope)
        (s.registry.updated function
          { f with parameters := f.parameters ++ declaredParameters (p :: ps) (ty :: tys) })
        ((s.registry.updated function
          { f with parameters := f.parameters ++ declaredParameters (p :: ps) (ty :: tys) }).bound
            s.context.scope sc p.name (.ofParameter p.name ty)) := Registry.bound_grows hsc
    refine hb.trans ?_
    rw [hparameters, ← Registry.updated_updated s.registry function
      { f with parameters := f.parameters ++ [⟨p.name, ty⟩] }]
    exact hgrows

end

/-! ## Parts of statements -/

section

variable {s s' : State} {id : NodeId} {span : Span}

theorem expr_ok {e e' : Expr} {i : ExprInfo} :
    expr e s = .ok (e', i) s' ↔
      checkExpr s.registry s.context.scope false e = .ok (e', i) ∧ s = s' :=
  Check.look_ok

theorem lvalue_ok {l l' : LValue} {ty : Ty} :
    lvalue l s = .ok (l', ty) s' ↔
      checkLValue s.registry s.context.scope l = .ok (l', ty) ∧ s = s' :=
  Check.look_ok

theorem refuse_ok {α : Type} {cause : Cause} {a : α} :
    refuse cause id span s = .ok a s' ↔ False := by
  simp [refuse, Check.look_ok]

/-- A condition passes if it is of type `bool`. -/
theorem condition_ok {e e' : Expr} :
    condition e s = .ok e' s' ↔
      ∃ i, checkExpr s.registry s.context.scope false e = .ok (e', i) ∧ i.ty = .scalar .bool ∧
        s' = s := by
  simp only [condition, Check.bind_ok, Prod.exists, expr_ok]
  constructor
  · intro h
    obtain ⟨d, i, _, ⟨he, rfl⟩, h⟩ := h
    split at h
    next ht =>
      obtain ⟨rfl, rfl⟩ := Check.pure_ok.mp h
      exact ⟨i, he, ht, rfl⟩
    next => exact absurd h (by simp [refuse_ok])
  · intro h
    obtain ⟨i, he, ht, rfl⟩ := h
    refine ⟨e', i, _, ⟨he, rfl⟩, ?_⟩
    rw [if_pos ht]
    rfl

/-- An assignment passes if its target can be assigned to and its value has the target's type. -/
theorem assignment_ok {target : LValue} {value : Expr} {k : StmtKind} :
    assignment target value s = .ok k s' ↔
      ∃ target' value' i, checkLValue s.registry s.context.scope target = .ok (target', i.ty) ∧
        target'.assignable = true ∧
        checkExpr s.registry s.context.scope false value = .ok (value', i) ∧
        k = .assign target' value' ∧ s' = s := by
  simp only [assignment, Check.bind_ok, Prod.exists, lvalue_ok]
  constructor
  · intro h
    obtain ⟨target', ty, _, ⟨hl, rfl⟩, h⟩ := h
    split at h
    next => exact absurd h (by simp [refuse_ok])
    next ha =>
      simp only [Check.bind_ok, Prod.exists, expr_ok] at h
      obtain ⟨value', i, _, ⟨hv, rfl⟩, h⟩ := h
      split at h
      next ht =>
        obtain ⟨rfl, rfl⟩ := Check.pure_ok.mp h
        exact ⟨target', value', i, by rw [ht]; exact hl, by simpa using ha, hv, rfl, rfl⟩
      next => exact absurd h (by simp [refuse_ok])
  · intro h
    obtain ⟨target', value', i, hl, ha, hv, rfl, rfl⟩ := h
    refine ⟨target', i.ty, _, ⟨hl, rfl⟩, ?_⟩
    rw [if_neg (by simp [ha])]
    simp only [Check.bind_ok, Prod.exists, expr_ok]
    refine ⟨value', i, _, ⟨hv, rfl⟩, ?_⟩
    rw [if_pos rfl]
    rfl

/-- A jump needs a loop around it, and goes to the innermost one. -/
theorem innermostLoop_ok {keyword : String} {loop : NodeId} :
    innermostLoop keyword id span s = .ok loop s' ↔
      s.context.loops.head? = some loop ∧ s' = s := by
  unfold innermostLoop
  rw [Check.look_ok]
  cases s.context.loops with
  | nil => simp
  | cons l ls =>
    simp only [Except.ok.injEq, List.head?_cons, Option.some.injEq]
    exact and_congr Iff.rfl eq_comm

/-- A return needs a function around it. -/
theorem enclosingFunction_ok {f : FunctionId} {ty : Ty} :
    enclosingFunction id span s = .ok (f, ty) s' ↔
      ∃ signature, s.context.function = some f ∧ s.registry.function? f = some signature ∧
        ty = signature.returns ∧ s' = s := by
  unfold enclosingFunction
  rw [Check.look_ok]
  cases s.context.function with
  | none => simp
  | some g =>
    simp only [bind_ok, entry_ok, pure_ok, Prod.mk.injEq, Option.some.injEq]
    constructor
    · intro h
      obtain ⟨⟨signature, hs, rfl, rfl⟩, rfl⟩ := h
      exact ⟨signature, rfl, hs, rfl, rfl⟩
    · intro h
      obtain ⟨signature, rfl, hs, rfl, rfl⟩ := h
      exact ⟨⟨signature, hs, rfl, rfl⟩, rfl⟩

/-- A return without a value passes in a function that gives none. -/
theorem returning_none_ok {k : StmtKind} :
    returning id span none s = .ok k s' ↔
      ∃ f signature, s.context.function = some f ∧ s.registry.function? f = some signature ∧
        signature.returns.basic = .void ∧ k = .ret none (some f) ∧ s' = s := by
  simp only [returning, Check.bind_ok, Prod.exists, enclosingFunction_ok]
  constructor
  · intro h
    obtain ⟨f, ty, _, ⟨signature, hf, hs, rfl, rfl⟩, h⟩ := h
    split at h
    next hv =>
      obtain ⟨rfl, rfl⟩ := Check.pure_ok.mp h
      exact ⟨f, signature, hf, hs, hv, rfl, rfl⟩
    next => exact absurd h (by simp [refuse_ok])
  · intro h
    obtain ⟨f, signature, hf, hs, hv, rfl, rfl⟩ := h
    refine ⟨f, _, _, ⟨signature, hf, hs, rfl, rfl⟩, ?_⟩
    rw [if_pos hv]
    rfl

/-- A return with a value passes in a function that gives values of this type. -/
theorem returning_some_ok {e : Expr} {k : StmtKind} :
    returning id span (some e) s = .ok k s' ↔
      ∃ f signature e' i, s.context.function = some f ∧
        s.registry.function? f = some signature ∧ signature.returns.basic ≠ .void ∧
        checkExpr s.registry s.context.scope false e = .ok (e', i) ∧ i.ty = signature.returns ∧
        k = .ret (some e') (some f) ∧ s' = s := by
  simp only [returning, Check.bind_ok, Prod.exists, enclosingFunction_ok, expr_ok]
  constructor
  · intro h
    obtain ⟨f, ty, _, ⟨signature, hf, hs, rfl, rfl⟩, e', i, _, ⟨he, rfl⟩, h⟩ := h
    split at h
    next hv =>
      obtain ⟨rfl, rfl⟩ := Check.pure_ok.mp h
      exact ⟨f, signature, e', i, hf, hs, hv.1, he, hv.2, rfl, rfl⟩
    next => exact absurd h (by simp [refuse_ok])
  · intro h
    obtain ⟨f, signature, e', i, hf, hs, hv, he, ht, rfl, rfl⟩ := h
    refine ⟨f, _, _, ⟨signature, hf, hs, rfl, rfl⟩, e', i, _, ⟨he, rfl⟩, ?_⟩
    rw [if_pos ⟨hv, ht⟩]
    rfl

end

/-! ## Statements and blocks -/

section

variable {s s' : State} {id : NodeId} {span : Span} {hasReturn : Bool} {t' : Stmt}

/-- An assignment statement passes if its assignment does, and it does not return. -/
theorem stmt_assign_ok {target : LValue} {value : Expr} :
    stmt ⟨id, .assign target value, span, hasReturn⟩ s = .ok t' s' ↔
      ∃ target' value' i, checkLValue s.registry s.context.scope target = .ok (target', i.ty) ∧
        target'.assignable = true ∧
        checkExpr s.registry s.context.scope false value = .ok (value', i) ∧
        t' = ⟨id, .assign target' value', span, false⟩ ∧ s' = s := by
  simp only [stmt, Check.bind_ok, assignment_ok, Check.pure_ok]
  constructor
  · intro h
    obtain ⟨_, _, ⟨target', value', i, hl, ha, hv, rfl, rfl⟩, rfl, rfl⟩ := h
    exact ⟨target', value', i, hl, ha, hv, rfl, rfl⟩
  · intro h
    obtain ⟨target', value', i, hl, ha, hv, rfl, rfl⟩ := h
    exact ⟨_, _, ⟨target', value', i, hl, ha, hv, rfl, rfl⟩, rfl, rfl⟩

theorem stmt_empty_ok :
    stmt ⟨id, .expr none, span, hasReturn⟩ s = .ok t' s' ↔
      t' = ⟨id, .expr none, span, false⟩ ∧ s' = s := by
  simp only [stmt, Check.pure_ok]
  exact and_congr eq_comm eq_comm

/-- An expression statement passes if its expression does, whatever its type. -/
theorem stmt_expr_ok {value : Expr} :
    stmt ⟨id, .expr (some value), span, hasReturn⟩ s = .ok t' s' ↔
      ∃ value' i, checkExpr s.registry s.context.scope false value = .ok (value', i) ∧
        t' = ⟨id, .expr (some value'), span, false⟩ ∧ s' = s := by
  simp only [stmt, Check.bind_ok, Prod.exists, expr_ok, Check.pure_ok]
  constructor
  · intro h
    obtain ⟨value', i, _, ⟨hv, rfl⟩, rfl, rfl⟩ := h
    exact ⟨value', i, hv, rfl, rfl⟩
  · intro h
    obtain ⟨value', i, hv, rfl, rfl⟩ := h
    exact ⟨value', i, _, ⟨hv, rfl⟩, rfl, rfl⟩

/-- A block statement returns if its block does. -/
theorem stmt_block_ok {b : Block} :
    stmt ⟨id, .block b, span, hasReturn⟩ s = .ok t' s' ↔
      ∃ b', block b s = .ok b' s' ∧ t' = ⟨id, .block b', span, b'.hasReturn⟩ := by
  simp only [stmt, Check.bind_ok, Check.pure_ok]
  constructor
  · intro h
    obtain ⟨b', _, hb, rfl, rfl⟩ := h
    exact ⟨b', hb, rfl⟩
  · intro h
    obtain ⟨b', hb, rfl⟩ := h
    exact ⟨b', _, hb, rfl, rfl⟩

/-- Without an alternative, a condition does not return. -/
theorem stmt_if_ok {test : Expr} {thenBranch : Stmt} :
    stmt ⟨id, .cond test thenBranch none, span, hasReturn⟩ s = .ok t' s' ↔
      ∃ test' i then', checkExpr s.registry s.context.scope false test = .ok (test', i) ∧
        i.ty = .scalar .bool ∧ stmt thenBranch s = .ok then' s' ∧
        t' = ⟨id, .cond test' then' none, span, false⟩ := by
  simp only [stmt, Check.bind_ok, condition_ok, Check.pure_ok]
  constructor
  · intro h
    obtain ⟨test', _, ⟨i, he, ht, rfl⟩, then', _, hthen, rfl, rfl⟩ := h
    exact ⟨test', i, then', he, ht, hthen, rfl⟩
  · intro h
    obtain ⟨test', i, then', he, ht, hthen, rfl⟩ := h
    exact ⟨test', _, ⟨i, he, ht, rfl⟩, then', _, hthen, rfl, rfl⟩

/-- With an alternative, a condition returns if both of its branches do. -/
theorem stmt_ifElse_ok {test : Expr} {thenBranch elseBranch : Stmt} :
    stmt ⟨id, .cond test thenBranch (some elseBranch), span, hasReturn⟩ s = .ok t' s' ↔
      ∃ test' i then' else' s₁,
        checkExpr s.registry s.context.scope false test = .ok (test', i) ∧
        i.ty = .scalar .bool ∧ stmt thenBranch s = .ok then' s₁ ∧
        stmt elseBranch s₁ = .ok else' s' ∧
        t' = ⟨id, .cond test' then' (some else'), span, then'.hasReturn && else'.hasReturn⟩ := by
  simp only [stmt, Check.bind_ok, condition_ok, Check.pure_ok]
  constructor
  · intro h
    obtain ⟨test', _, ⟨i, he, ht, rfl⟩, then', s₁, hthen, else', _, helse, rfl, rfl⟩ := h
    exact ⟨test', i, then', else', s₁, he, ht, hthen, helse, rfl⟩
  · intro h
    obtain ⟨test', i, then', else', s₁, he, ht, hthen, helse, rfl⟩ := h
    exact ⟨test', _, ⟨i, he, ht, rfl⟩, then', s₁, hthen, else', _, helse, rfl, rfl⟩

/-- A loop does not return, whatever its body does. The body is checked with the loop
around it. -/
theorem stmt_loop_ok {test : Expr} {body : Stmt} :
    stmt ⟨id, .loop test body, span, hasReturn⟩ s = .ok t' s' ↔
      ∃ test' i body' s₁, checkExpr s.registry s.context.scope false test = .ok (test', i) ∧
        i.ty = .scalar .bool ∧ stmt body (s.inLoop id) = .ok body' s₁ ∧
        t' = ⟨id, .loop test' body', span, false⟩ ∧ s' = ⟨s₁.registry, s.context⟩ := by
  simp only [stmt, Check.bind_ok, condition_ok, Check.pure_ok, Check.inLoop_ok (stmt_keeps body)]
  constructor
  · intro h
    obtain ⟨test', _, ⟨i, he, ht, rfl⟩, body', _, ⟨s₁, hb, rfl⟩, rfl, rfl⟩ := h
    exact ⟨test', i, body', s₁, he, ht, hb, rfl, rfl⟩
  · intro h
    obtain ⟨test', i, body', s₁, he, ht, hb, rfl, rfl⟩ := h
    exact ⟨test', _, ⟨i, he, ht, rfl⟩, body', _, ⟨s₁, hb, rfl⟩, rfl, rfl⟩

/-- A `break` is given the innermost loop. -/
theorem stmt_leave_ok {target : Option NodeId} :
    stmt ⟨id, .leave target, span, hasReturn⟩ s = .ok t' s' ↔
      ∃ loop, s.context.loops.head? = some loop ∧
        t' = ⟨id, .leave (some loop), span, false⟩ ∧ s' = s := by
  simp only [stmt, Check.bind_ok, innermostLoop_ok, Check.pure_ok]
  constructor
  · intro h
    obtain ⟨loop, _, ⟨hl, rfl⟩, rfl, rfl⟩ := h
    exact ⟨loop, hl, rfl, rfl⟩
  · intro h
    obtain ⟨loop, hl, rfl, rfl⟩ := h
    exact ⟨loop, _, ⟨hl, rfl⟩, rfl, rfl⟩

/-- A `continue` is given the innermost loop. -/
theorem stmt_next_ok {target : Option NodeId} :
    stmt ⟨id, .next target, span, hasReturn⟩ s = .ok t' s' ↔
      ∃ loop, s.context.loops.head? = some loop ∧
        t' = ⟨id, .next (some loop), span, false⟩ ∧ s' = s := by
  simp only [stmt, Check.bind_ok, innermostLoop_ok, Check.pure_ok]
  constructor
  · intro h
    obtain ⟨loop, _, ⟨hl, rfl⟩, rfl, rfl⟩ := h
    exact ⟨loop, hl, rfl, rfl⟩
  · intro h
    obtain ⟨loop, hl, rfl, rfl⟩ := h
    exact ⟨loop, _, ⟨hl, rfl⟩, rfl, rfl⟩

/-- A return returns. -/
theorem stmt_ret_ok {value : Option Expr} {function : Option FunctionId} :
    stmt ⟨id, .ret value function, span, hasReturn⟩ s = .ok t' s' ↔
      ∃ k, returning id span value s = .ok k s' ∧ t' = ⟨id, k, span, true⟩ := by
  simp only [stmt, Check.bind_ok, Check.pure_ok]
  constructor
  · intro h
    obtain ⟨k, _, hk, rfl, rfl⟩ := h
    exact ⟨k, hk, rfl⟩
  · intro h
    obtain ⟨k, hk, rfl⟩ := h
    exact ⟨k, _, hk, rfl, rfl⟩

/-- A block is its items, checked in a new scope. -/
theorem block_ok {items : List BlockItem} {scope : Option ScopeId} {b' : Block} :
    block ⟨id, items, span, scope, hasReturn⟩ s = .ok b' s' ↔
      ∃ items' returns s₁, blockItems items s.inScope = .ok (items', returns) s₁ ∧
        b' = ⟨id, items', span, some ⟨s.registry.scopes.size⟩, returns⟩ ∧
        s' = ⟨s₁.registry, s.context⟩ := by
  have hback : ∀ {a : List BlockItem × Bool} {s₁ : State},
      blockItems items s.inScope = .ok a s₁ →
      { s₁.context with scope := s.context.scope } = s.context := by
    intro a s₁ h
    rw [((blockItems_keeps items).ok h).1]
    rfl
  simp only [block, Check.bind_ok, Prod.exists, Check.inScope_ok, Check.pure_ok]
  constructor
  · intro h
    obtain ⟨_, items', returns, _, ⟨s₁, hi, rfl, rfl⟩, rfl, rfl⟩ := h
    exact ⟨items', returns, s₁, hi, rfl, by rw [hback hi]⟩
  · intro h
    obtain ⟨items', returns, s₁, hi, rfl, rfl⟩ := h
    exact ⟨_, items', returns, _, ⟨s₁, hi, rfl, rfl⟩, rfl, by rw [hback hi]⟩

theorem blockItems_nil_ok {items' : List BlockItem} {returns : Bool} :
    blockItems [] s = .ok (items', returns) s' ↔ items' = [] ∧ returns = false ∧ s' = s := by
  simp only [blockItems, Check.pure_ok, Prod.mk.injEq, and_assoc]
  exact and_congr eq_comm (and_congr eq_comm eq_comm)

/-- A declaration in a block does not return. -/
theorem blockItems_decl_ok {d : Decl} {rest items' : List BlockItem} {returns : Bool} :
    blockItems (.decl d :: rest) s = .ok (items', returns) s' ↔
      ∃ d' rest' s₁, decl d s = .ok d' s₁ ∧ blockItems rest s₁ = .ok (rest', returns) s' ∧
        items' = .decl d' :: rest' := by
  simp only [blockItems, Check.bind_ok, Prod.exists, Check.pure_ok, Prod.mk.injEq]
  constructor
  · intro h
    obtain ⟨d', s₁, hd, rest', _, _, hrest, ⟨rfl, rfl⟩, rfl⟩ := h
    exact ⟨d', rest', s₁, hd, hrest, rfl⟩
  · intro h
    obtain ⟨d', rest', s₁, hd, hrest, rfl⟩ := h
    exact ⟨d', s₁, hd, rest', _, _, hrest, ⟨rfl, rfl⟩, rfl⟩

/-- The items of a block return if one of its statements does. -/
theorem blockItems_stmt_ok {t : Stmt} {rest items' : List BlockItem} {returns : Bool} :
    blockItems (.stmt t :: rest) s = .ok (items', returns) s' ↔
      ∃ t' rest' later s₁, stmt t s = .ok t' s₁ ∧ blockItems rest s₁ = .ok (rest', later) s' ∧
        items' = .stmt t' :: rest' ∧ returns = (t'.hasReturn || later) := by
  simp only [blockItems, Check.bind_ok, Prod.exists, Check.pure_ok, Prod.mk.injEq]
  constructor
  · intro h
    obtain ⟨t', s₁, ht, rest', later, _, hrest, ⟨rfl, rfl⟩, rfl⟩ := h
    exact ⟨t', rest', later, s₁, ht, hrest, rfl, rfl⟩
  · intro h
    obtain ⟨t', rest', later, s₁, ht, hrest, rfl, rfl⟩ := h
    exact ⟨t', s₁, ht, rest', later, _, hrest, ⟨rfl, rfl⟩, rfl⟩

end

/-! ## Functions and programs -/

section

variable {s s' : State}

/-- A function is declared if the registry takes its name. -/
theorem declareFunction_ok {f : FuncDef} {fn : FunctionId} :
    declareFunction f s = .ok fn s' ↔
      ∃ r, s.registry.newFunction f.name f.returns = .ok (fn, r) ∧
        s' = { s with registry := r } := by
  unfold declareFunction
  rw [Check.declare_ok]
  simp only [locateRefusal_ok]

/-- The state that the parameters of a definition are checked in: there is a scope for
them, and the function is declared. -/
def State.inFunction (s : State) (f : FuncDef) : State :=
  ⟨s.inScope.registry.declared { name := f.name, returns := .scalar f.returns },
    { s.inScope.context with function := some ⟨s.registry.functions.size⟩ }⟩

/-- A function is declared in a scope of its own, then come its parameters in that
scope and its body in another. -/
theorem funcDef_ok {f f' : FuncDef} :
    funcDef f s = .ok f' s' ↔
      s.inScope.registry.globalBinds f.name = .ok false ∧
      s.registry.findFunction? f.name = none ∧
      ∃ ps s₁ body s₂, params ⟨s.registry.functions.size⟩ f.params (s.inFunction f) = .ok ps s₁ ∧
        block f.body s₁ = .ok body s₂ ∧
        f' = { f with
          params := ps, body, function := some ⟨s.registry.functions.size⟩,
          scope := some ⟨s.registry.scopes.size⟩ } ∧
        s' = ⟨s₂.registry, s.context⟩ := by
  have hback : ∀ {ps : List Param} {s₁ : State} {body : Block} {s₂ : State},
      params ⟨s.registry.functions.size⟩ f.params (s.inFunction f) = .ok ps s₁ →
      block f.body s₁ = .ok body s₂ →
      (⟨s.context.scope, s.context.function, s₂.context.loops⟩ : Context) = s.context := by
    intro ps s₁ body s₂ hps hbody
    rw [((block_keeps f.body).ok hbody).1, params_context hps]
    rfl
  simp only [funcDef, Check.bind_ok, Prod.exists, Check.inScope_ok, declareFunction_ok,
    Check.inFunction, Check.within_ok, Check.pure_ok, Prod.mk.injEq]
  constructor
  · intro h
    obtain ⟨_, _, _, _, _, ⟨_, ⟨fn, _, ⟨r, hr, rfl⟩, _, _, _, ⟨_, ⟨ps, s₁, hps, body, s₂, hbody,
      ⟨rfl, rfl⟩, rfl⟩, rfl⟩, ⟨rfl, rfl, rfl⟩, rfl⟩, rfl, rfl⟩, rfl, rfl⟩ := h
    obtain ⟨hglobal, hname, rfl, rfl⟩ := Registry.newFunction_ok.mp hr
    exact ⟨hglobal, hname, ps, s₁, body, s₂, hps, hbody, rfl, by rw [← hback hps hbody]; rfl⟩
  · intro h
    obtain ⟨hglobal, hname, ps, s₁, body, s₂, hps, hbody, rfl, rfl⟩ := h
    have hr : s.inScope.registry.newFunction f.name f.returns = .ok (_, _) :=
      Registry.newFunction_ok.mpr ⟨hglobal, hname, rfl, rfl⟩
    refine ⟨_, _, ps, body, _, ⟨_, ⟨_, _, ⟨_, hr, rfl⟩, ps, body, _, ⟨s₂, ⟨ps, s₁, hps, body, s₂,
      hbody, ⟨rfl, rfl⟩, rfl⟩, rfl⟩, ⟨rfl, rfl, rfl⟩, rfl⟩, rfl, rfl⟩, rfl, ?_⟩
    rw [← hback hps hbody]
    rfl

/-- The function of a definition, with parameters of the given types. -/
def declaredSignature (f : FuncDef) (tys : List Ty) : Signature :=
  { name := f.name, returns := .scalar f.returns, parameters := declaredParameters f.params tys }

/-- What the parameters of a definition leave behind: the function has them all, and
only their own scope has gained bindings. -/
theorem inFunction_grows {f : FuncDef} {ps : List Param}
    (h : params ⟨s.registry.functions.size⟩ f.params (s.inFunction f) = .ok ps s') :
    ∃ tys,
      List.Forall₂ (fun p ty => typeOf p.basic p.dims p.isOpen p.id = .ok ty) f.params tys ∧
      Registry.Grows (some ⟨s.registry.scopes.size⟩)
        (s.inScope.registry.declared (declaredSignature f tys)) s'.registry := by
  obtain ⟨tys, htys, hgrows⟩ := params_grows h Array.getElem?_push_size
  refine ⟨tys, htys, ?_⟩
  -- the function is the last entry, so setting it replaces what was declared
  have hlast := Registry.updated_declared s.inScope.registry
    (f := { name := f.name, returns := .scalar f.returns }) (g := declaredSignature f tys) rfl
  rw [← hlast]
  exact hgrows

/-- A definition adds its function, and apart from that only scopes and variables. No
scope that was there before gains a binding: the parameters have a scope of their own. -/
theorem funcDef_grows {f f' : FuncDef} (h : funcDef f s = .ok f' s') :
    ∃ tys,
      List.Forall₂ (fun p ty => typeOf p.basic p.dims p.isOpen p.id = .ok ty) f.params tys ∧
      Registry.Grows none (s.registry.declared (declaredSignature f tys)) s'.registry := by
  obtain ⟨_, _, ps, s₁, body, s₂, hps, hbody, _, rfl⟩ := funcDef_ok.mp h
  obtain ⟨tys, htys, hparams⟩ := inFunction_grows hps
  have hblock := ((block_keeps f.body).ok hbody).2
  have hpush := Registry.pushScope_grows s.registry (some s.context.scope)
  refine ⟨tys, htys, (hblock.global.trans hparams.global).trans hpush.global,
    hblock.functions.trans hparams.functions, hblock.functionNames.trans hparams.functionNames,
    fun hy => hblock.symbol (hparams.symbol (hpush.symbol hy)), ?_⟩
  intro id c hc
  refine ⟨[], ?_, fun _ => rfl⟩
  rw [List.append_nil]
  -- parameters are bound in the new scope, and the body binds in a scope inside that
  exact hblock.scope_eq (by simp [nowhere])
    (hparams.scope_eq (Registry.scope?_ne_new hc) (Registry.pushScope_scope? hc))

/-- Checking a function definition keeps what was declared. -/
theorem funcDef_below {f f' : FuncDef} (h : funcDef f s = .ok f' s') :
    s.registry.Below s'.registry := by
  obtain ⟨tys, _, hgrows⟩ := funcDef_grows h
  refine ⟨hgrows.symbol, ?_, hgrows.below.scope⟩
  intro g signature hg
  rw [Registry.function?, hgrows.functions]
  exact Registry.getElem?_push_of_some hg

theorem items_nil_ok {is' : List Item} :
    items [] s = .ok is' s' ↔ is' = [] ∧ s' = s := by
  simp only [items, Check.pure_ok]
  exact and_congr eq_comm eq_comm

/-- A declaration passes before the rest of the program. -/
theorem items_decl_ok {d : Decl} {rest is' : List Item} :
    items (.decl d :: rest) s = .ok is' s' ↔
      ∃ d' rest' s₁, decl d s = .ok d' s₁ ∧ items rest s₁ = .ok rest' s' ∧
        is' = .decl d' :: rest' := by
  simp only [items, Check.bind_ok, Check.pure_ok]
  constructor
  · intro h
    obtain ⟨d', s₁, hd, rest', _, hrest, rfl, rfl⟩ := h
    exact ⟨d', rest', s₁, hd, hrest, rfl⟩
  · intro h
    obtain ⟨d', rest', s₁, hd, hrest, rfl⟩ := h
    exact ⟨d', s₁, hd, rest', _, hrest, rfl, rfl⟩

/-- A function definition passes before the rest of the program. -/
theorem items_func_ok {f : FuncDef} {rest is' : List Item} :
    items (.func f :: rest) s = .ok is' s' ↔
      ∃ f' rest' s₁, funcDef f s = .ok f' s₁ ∧ items rest s₁ = .ok rest' s' ∧
        is' = .func f' :: rest' := by
  simp only [items, Check.bind_ok, Check.pure_ok]
  constructor
  · intro h
    obtain ⟨f', s₁, hf, rest', _, hrest, rfl, rfl⟩ := h
    exact ⟨f', rest', s₁, hf, hrest, rfl⟩
  · intro h
    obtain ⟨f', rest', s₁, hf, hrest, rfl⟩ := h
    exact ⟨f', s₁, hf, rest', _, hrest, rfl, rfl⟩

/-- The items of a program leave the context as it is. -/
theorem items_context :
    ∀ {is is' : List Item} {s s' : State}, items is s = .ok is' s' → s'.context = s.context
  | [], _, _, _, h => by
    rw [(items_nil_ok.mp h).2]
  | .decl d :: _, _, _, _, h => by
    obtain ⟨_, _, s₁, hd, hrest, _⟩ := items_decl_ok.mp h
    rw [items_context hrest, ((decl_keeps d).ok hd).1]
  | .func f :: _, _, _, _, h => by
    obtain ⟨_, _, s₁, hf, hrest, _⟩ := items_func_ok.mp h
    obtain ⟨_, _, _, _, _, _, _, _, _, rfl⟩ := funcDef_ok.mp hf
    rw [items_context hrest]

/-- Checking a program keeps what was declared. -/
theorem items_below :
    ∀ {is is' : List Item} {s s' : State}, items is s = .ok is' s' →
      s.registry.Below s'.registry
  | [], _, _, _, h => by
    rw [(items_nil_ok.mp h).2]
    exact .refl _
  | .decl d :: _, _, _, _, h => by
    obtain ⟨_, _, _, hd, hrest, _⟩ := items_decl_ok.mp h
    exact ((decl_keeps d).ok hd).2.below.trans (items_below hrest)
  | .func _ :: _, _, _, _, h => by
    obtain ⟨_, _, _, hf, hrest, _⟩ := items_func_ok.mp h
    exact (funcDef_below hf).trans (items_below hrest)

end

/-- The state that checking a program starts from. -/
def start (withBuiltins : Bool) : State :=
  ⟨(initial withBuiltins).2.2, { scope := (initial withBuiltins).1 }⟩

/-- At the start, names stand for the functions that have them. -/
theorem start_indexed (withBuiltins : Bool) : (start withBuiltins).registry.Indexed := by
  have hempty : ({} : Registry).ensureGlobal.2.Indexed :=
    Registry.indexed_empty.congr rfl rfl
  unfold start initial
  cases withBuiltins with
  | false => exact hempty
  | true =>
    dsimp only
    rw [if_pos rfl]
    exact Registry.indexed_addBuiltins hempty

/-- The built-in functions have different names, so they can always be declared. -/
theorem initial_ok (withBuiltins : Bool) : (initial withBuiltins).2.1 = .ok () := by
  cases withBuiltins with
  | false => rfl
  | true => decide +kernel

/-- Checking a program is checking its items, from the state that the built-in functions leave. -/
theorem typeCheck_eq (withBuiltins : Bool) (p : Program) :
    typeCheck withBuiltins p =
      match items p.items (start withBuiltins) with
      | .ok is s => (.ok { p with items := is }, s.registry)
      | .error failure s => (.error failure, s.registry) := by
  have h := initial_ok withBuiltins
  unfold typeCheck start
  split
  next heq =>
    rw [heq] at h
    exact absurd h (by simp)
  next heq =>
    rw [heq]
    simp only [program, bind, EStateM.bind]
    cases items p.items _ <;> rfl

/-- A program passes if its items do. -/
theorem typeCheck_ok {withBuiltins : Bool} {p p' : Program} {r : Registry} :
    typeCheck withBuiltins p = (.ok p', r) ↔
      ∃ is s, items p.items (start withBuiltins) = .ok is s ∧ p' = { p with items := is } ∧
        r = s.registry := by
  rw [typeCheck_eq]
  cases items p.items (start withBuiltins) with
  | ok is s =>
    simp only [Prod.mk.injEq, Except.ok.injEq, EStateM.Result.ok.injEq]
    constructor
    · intro h
      exact ⟨is, s, ⟨rfl, rfl⟩, h.1.symm, h.2.symm⟩
    · intro h
      obtain ⟨_, _, ⟨rfl, rfl⟩, rfl, rfl⟩ := h
      exact ⟨rfl, rfl⟩
  | error failure s => simp

/-- A program fails if its items do, and leaves the registry that they leave. -/
theorem typeCheck_error {withBuiltins : Bool} {p : Program} {failure : Failure} {r : Registry} :
    typeCheck withBuiltins p = (.error failure, r) ↔
      ∃ s, items p.items (start withBuiltins) = .error failure s ∧ r = s.registry := by
  rw [typeCheck_eq]
  cases items p.items (start withBuiltins) with
  | ok is s => simp
  | error failure' s =>
    simp only [Prod.mk.injEq, Except.error.injEq, EStateM.Result.error.injEq]
    constructor
    · intro h
      exact ⟨s, ⟨h.1, rfl⟩, h.2.symm⟩
    · intro h
      obtain ⟨_, ⟨rfl, rfl⟩, rfl⟩ := h
      exact ⟨rfl, rfl⟩

/-! ## Sources -/

/-- The program that a source is read as. -/
def readSource? (source : String) : Option Program :=
  match tokenize source with
  | .error _ => none
  | .ok tokens =>
    match parse tokens "shell" with
    | .error _ _ => none
    | .ok p _ => some p

/-- A source that is read has tokens, and they are read as a program. -/
theorem exists_of_readSource? {source : String} {p : Program} (h : readSource? source = some p) :
    ∃ tokens c, tokenize source = .ok tokens ∧ parse tokens "shell" = .ok p c := by
  unfold readSource? at h
  split at h
  next => cases h
  next tokens hscan =>
    split at h
    next => cases h
    next p' c hparse =>
      obtain rfl := Option.some.inj h
      exact ⟨tokens, c, hscan, hparse⟩

/-- Whether a source is read as a program that passes. -/
def acceptsSource (withBuiltins : Bool) (source : String) : Bool :=
  match readSource? source with
  | none => false
  | some p => (typeCheck withBuiltins p).1.isOk

/-- A source that is accepted is read, and its program passes. -/
theorem typeCheck_of_acceptsSource (withBuiltins : Bool) (source : String)
    (h : acceptsSource withBuiltins source = true) :
    ∃ p p' r, readSource? source = some p ∧ typeCheck withBuiltins p = (.ok p', r) := by
  unfold acceptsSource at h
  cases hp : readSource? source with
  | none =>
    rw [hp] at h
    exact absurd h (by simp)
  | some p =>
    simp only [hp] at h
    rcases hc : typeCheck withBuiltins p with ⟨_ | p', r⟩
    · rw [hc] at h
      exact absurd h (by simp [Except.isOk, Except.toBool])
    · exact ⟨p, p', r, rfl, hc⟩

/-- A program with a name that is shadowed twice, a function that calls itself, and an
array passed for an open dimension:

```
int x[2] = {1, -2};
int f(int a[]) { int x; while (x > a[1]) { bool x; x = f(a) == 0; break; } a[0] = x; return x; }
void main() { print_int(f(x)); }
```
-/
def sampleSource : String :=
  "int x[2] = \x7b1, -2\x7d; " ++
  "int f(int a[]) \x7b int x; while (x > a[1]) \x7b bool x; x = f(a) == 0; break; \x7d " ++
  "a[0] = x; return x; \x7d " ++
  "void main() \x7b print_int(f(x)); \x7d"

theorem typeCheck_sampleSource :
    ∃ p p' r, readSource? sampleSource = some p ∧ typeCheck true p = (.ok p', r) :=
  typeCheck_of_acceptsSource true sampleSource (by decide +kernel)

end CactLang.Typing
