import CactLang.Proofs.Rejected.Expression
import CactLang.Proofs.Walk

/-!
# What a rejected program is blamed for

The counterpart of `Rejected.Expression` for the checks that carry a state. A failure
happens at one node of the tree, while the walk is at the place of that node, so what
the registry and the context said at that moment can be read off the tree.

> `FaultAt ps failure`: one of the nodes is the reason for the failure, and the walk was
> at its place.
-/

namespace CactLang.Typing

/-! ## Checks that fail -/

/-- From a state, a check fails. -/
def Fails {α : Type} (m : Check α) (s : State) (failure : Failure) : Prop :=
  ∃ s', m s = .error failure s'

section

variable {α β : Type} {s : State} {failure : Failure}

/-- Two checks in a row fail as the first does, or as the second does after it. -/
theorem Fails.bind {x : Check α} {f : α → Check β} :
    Fails (x >>= f) s failure ↔
      Fails x s failure ∨ ∃ a s₁, x s = .ok a s₁ ∧ Fails (f a) s₁ failure := by
  unfold Fails
  simp only [Bind.bind, EStateM.bind]
  cases x s <;> simp

@[simp] theorem Fails.pure {a : α} : Fails (Pure.pure a : Check α) s failure ↔ False := by
  simp [Fails, Pure.pure, EStateM.pure]

theorem Fails.map {x : Check α} {f : α → β} :
    Fails (f <$> x) s failure ↔ Fails x s failure := by
  unfold Fails
  simp only [Functor.map, EStateM.map]
  cases x s <;> simp

/-- A look fails as what it asks for does. -/
theorem Fails.look {f : Registry → Context → Except Failure α} :
    Fails (Check.look f) s failure ↔ f s.registry s.context = .error failure := by
  unfold Fails Check.look
  cases f s.registry s.context <;> simp

/-- A declaration fails as the registry refuses it. -/
theorem Fails.declare {f : Registry → Context → Except Failure (α × Registry)} :
    Fails (Check.declare f) s failure ↔ f s.registry s.context = .error failure := by
  unfold Fails Check.declare
  cases f s.registry s.context <;> simp

/-- A part fails in its own context. -/
theorem Fails.within {enter : Context → Context} {leave : Context → Context → Context}
    {part : Check α} :
    Fails (Check.within enter leave part) s failure ↔
      Fails part ⟨s.registry, enter s.context⟩ failure := by
  unfold Fails Check.within
  cases part ⟨s.registry, enter s.context⟩ <;> simp

/-- A part fails in its own scope. -/
theorem Fails.inScope {part : Check α} :
    Fails (Check.inScope part) s failure ↔ Fails part s.inScope failure := by
  unfold Fails
  rw [Check.inScope_apply]
  cases part s.inScope <;> simp

theorem Fails.inLoop {loop : NodeId} {part : Check α} :
    Fails (Check.inLoop loop part) s failure ↔ Fails part (s.inLoop loop) failure :=
  Fails.within

theorem Fails.refuse {cause : Cause} {id : NodeId} {span : Span} :
    Fails (refuse cause id span : Check α) s failure ↔
      failure = .diagnostic (.ofNode cause id span) :=
  Fails.look.trans reject_error

end

/-! ## Names that are refused -/

/-- A name is refused for being taken, unless its scope has no entry. -/
theorem register_error {r : Registry} {c : ScopeId} {name : String} {y : Symbol}
    {refusal : Registry.Refusal} (h : r.register c name y = .error refusal) :
    refusal = .cause (.duplicate name) ∨ refusal = .dangling := by
  rw [Registry.register_eq] at h
  split at h
  next => exact Or.inl (Except.error.inj h).symm
  next =>
    split at h
    next => exact Or.inr (Except.error.inj h).symm
    next =>
      split at h
      next => exact Or.inl (Except.error.inj h).symm
      next => simp at h

/-- A function is refused for its name, unless the global scope has no entry. -/
theorem newFunction_error {r : Registry} {name : String} {returns : BasicType}
    {refusal : Registry.Refusal} (h : r.newFunction name returns = .error refusal) :
    refusal = .cause (.duplicate name) ∨ refusal = .dangling := by
  rw [Registry.newFunction_eq] at h
  rcases bind_error.mp h with hglobal | ⟨binds, _, h⟩
  · unfold Registry.globalBinds at hglobal
    split at hglobal
    next => simp at hglobal
    next =>
      split at hglobal
      next => exact Or.inr (Except.error.inj hglobal).symm
      next => simp at hglobal
  · split at h
    next => exact Or.inl (Except.error.inj h).symm
    next => simp at h

/-- Adding a parameter fails only for want of the function. -/
theorem addParameter_error {α : Type} {r : Registry} {function : FunctionId} {p : Parameter}
    {f : Registry → α} {refusal : Registry.Refusal}
    (h : (r.addParameter function p).map f = .error refusal) : refusal = .dangling := by
  rw [Registry.addParameter_eq] at h
  split at h
  next => exact (Except.error.inj h).symm
  next => simp [Except.map] at h

/-- A name that cannot be declared is blamed on its declaration. -/
theorem refused_faults {α : Type} {r : Registry} {c : Context} {n : Node} {name : String}
    {x : Except Registry.Refusal α} {failure : Failure} (hn : n.name? = some name)
    (hx : ∀ {refusal}, x = .error refusal → refusal = .cause (.duplicate name) ∨
      refusal = .dangling)
    (h : locateRefusal n.id n.span x = .error failure) : Faults r c n failure := by
  rcases locateRefusal_error.mp h with ⟨cause, hcause, rfl⟩ | ⟨_, rfl⟩
  · rcases hx hcause with he | he
    · obtain rfl : cause = .duplicate name := Registry.Refusal.cause.inj he
      exact .blame (.duplicate hn)
    · exact absurd he (by simp)
  · exact .dangling

/-! ## Parts of statements -/

section

variable {s : State} {failure : Failure}

/-- A condition fails for a fault of its expression. -/
theorem condition_faults {e : Expr} (h : Fails (condition e) s failure) :
    FaultIn s.registry s.context e.nodes failure := by
  unfold condition at h
  rcases Fails.bind.mp h with he | ⟨⟨e', i⟩, s₁, _, h⟩
  · exact checkExpr_faults (Fails.look.mp he)
  · simp only at h
    split at h
    next => simp at h
    next hty =>
      rw [Fails.refuse.mp h]
      exact ⟨_, Expr.mem_nodes e, .blame (.mismatch hty)⟩

/-- An assignment fails for a fault of its target or its value. -/
theorem assignment_faults {target : LValue} {value : Expr}
    (h : Fails (assignment target value) s failure) :
    FaultIn s.registry s.context (target.nodes ++ value.nodes) failure := by
  unfold assignment at h
  rcases Fails.bind.mp h with hl | ⟨⟨target', ty⟩, s₁, hl, h⟩
  · exact (checkLValue_faults (Fails.look.mp hl)).left
  obtain ⟨_, rfl⟩ := lvalue_ok.mp hl
  simp only at h
  split at h
  next =>
    rw [Fails.refuse.mp h]
    exact FaultIn.left ⟨_, LValue.mem_nodes target, .blame .notAssignable⟩
  next =>
    rcases Fails.bind.mp h with he | ⟨⟨value', i⟩, s₁, _, h⟩
    · exact (checkExpr_faults (Fails.look.mp he)).right
    simp only at h
    split at h
    next => simp at h
    next hty =>
      rw [Fails.refuse.mp h]
      exact FaultIn.right ⟨_, Expr.mem_nodes value, .blame (.mismatch hty)⟩

/-- A jump fails for lack of a loop. -/
theorem innermostLoop_fails {keyword : String} {id : NodeId} {span : Span}
    (h : Fails (innermostLoop keyword id span) s failure) :
    s.context.loops = [] ∧ failure = .diagnostic (.ofNode (.outsideLoop keyword) id span) := by
  have hlook := Fails.look.mp h
  split at hlook
  next => simp at hlook
  next hloops => exact ⟨hloops, reject_error.mp hlook⟩

/-- A `return` is at fault itself, or its value is. -/
theorem returning_faults {t : Stmt} {value : Option Expr}
    (h : Fails (returning t.id t.span value) s failure) :
    FaultIn s.registry s.context (value.elim [] Expr.nodes ++ [.stmt t]) failure := by
  unfold returning at h
  rcases Fails.bind.mp h with hf | ⟨⟨f, expected⟩, s₁, hf, hvalue⟩
  · have hlook := Fails.look.mp hf
    split at hlook
    next hnone =>
      rw [reject_error.mp hlook]
      exact .here (.blame (.outside hnone))
    next f hf =>
      rcases bind_error.mp hlook with hentry | ⟨signature, _, hpure⟩
      · rw [(entry_error.mp hentry).2]
        exact .here .dangling
      · simp at hpure
  -- the function is known, so it is the value, or its absence, that does not fit
  obtain ⟨_, hcontext, _, _, rfl⟩ := enclosingFunction_ok.mp hf
  cases value with
  | none =>
    simp only at hvalue
    split at hvalue
    next => simp at hvalue
    next hvoid =>
      rw [Fails.refuse.mp hvalue]
      exact .here (.blame (.returnNothing hcontext hvoid))
  | some e =>
    rcases Fails.bind.mp hvalue with he | ⟨⟨e', i⟩, s₂, _, hrest⟩
    · exact (checkExpr_faults (Fails.look.mp he)).left
    simp only at hrest
    split at hrest
    next => simp at hrest
    next hty =>
      rw [Fails.refuse.mp hrest]
      exact FaultIn.left ⟨_, Expr.mem_nodes e, .blame (.returnValue hcontext hty)⟩

/-- The last step of a declaration is to bind its name. The registry and the context do
not matter for what a taken name is blamed for. -/
theorem bindName_faults {α : Type} {r : Registry} {c : Context} {n : Node} {name : String}
    {y : Symbol} {f : SymbolId → α} (hn : n.name? = some name)
    (h : Fails (do let v ← bindName n.id n.span name y; return f v) s failure) :
    Faults r c n failure := by
  rcases Fails.bind.mp h with hname | ⟨v, s₁, _, h⟩
  · exact refused_faults hn register_error (Fails.declare.mp hname)
  · simp at h

/-- A definition fails for a fault of its own or of its initial value. -/
theorem varDef_faults {isConstant : Bool} {basic : BasicType} {d : VarDef}
    (h : Fails (varDef isConstant basic d) s failure) :
    FaultIn s.registry s.context d.nodes failure := by
  unfold varDef at h
  rw [VarDef.nodes]
  rcases Fails.bind.mp h with hty | ⟨ty, s₁, hty, hrest⟩
  · exact .here (typeOf_faults (n := .varDef d) (Fails.look.mp hty))
  -- type and value are checked in the state as it is, so the name is bound in it too
  obtain ⟨_, rfl⟩ := Check.look_ok.mp hty
  cases hd : d.init with
  | none =>
    simp only [hd] at hrest
    rcases Fails.bind.mp hrest with hinit | ⟨init, s₂, hinit, hname⟩
    · simp at hinit
    · obtain ⟨_, rfl⟩ := Check.pure_ok.mp hinit
      exact .here (bindName_faults (n := .varDef d) rfl hname)
  | some x =>
    simp only [hd] at hrest
    rcases Fails.bind.mp hrest with hinit | ⟨init, s₂, hinit, hname⟩
    · exact (checkInitializer_faults (Fails.look.mp (Fails.map.mp hinit))).left
    · obtain ⟨x', hx, _⟩ := Check.map_ok.mp hinit
      obtain ⟨_, rfl⟩ := initializer_ok.mp hx
      exact .here (bindName_faults (n := .varDef d) rfl hname)

/-- A parameter fails for a fault of its own. -/
theorem param_faults {function : FunctionId} {p : Param}
    (h : Fails (param function p) s failure) :
    Faults s.registry s.context (.param p) failure := by
  unfold param at h
  rcases Fails.bind.mp h with hty | ⟨ty, s₁, _, h⟩
  · exact typeOf_faults (n := .param p) (Fails.look.mp hty)
  rcases Fails.bind.mp h with hadd | ⟨_, s₂, _, h⟩
  · exact refused_faults (n := .param p) rfl (fun hrefusal => .inr (addParameter_error hrefusal))
      (Fails.declare.mp hadd)
  exact bindName_faults (n := .param p) rfl h

end

/-! ## Places at fault -/

/-- One of the nodes is the reason for a failure, and the walk was at its place. -/
def FaultAt (ps : List (Place × Node)) (failure : Failure) : Prop :=
  ∃ x ∈ ps, ∃ s, At false s x.1 ∧ Faults s.registry s.context x.2 failure

section

variable {s : State} {place : Place} {failure : Failure} {ps qs : List (Place × Node)}

namespace FaultAt

/-- A fault in the first part. -/
theorem left (h : FaultAt ps failure) : FaultAt (ps ++ qs) failure := by
  obtain ⟨x, hx, hf⟩ := h
  exact ⟨x, List.mem_append_left qs hx, hf⟩

/-- A fault in the second part. -/
theorem right (h : FaultAt qs failure) : FaultAt (ps ++ qs) failure := by
  obtain ⟨x, hx, hf⟩ := h
  exact ⟨x, List.mem_append_right ps hx, hf⟩

/-- A fault of the last node, in a state that is right for its place. -/
theorem here {n : Node} (hs : At false s place) (h : Faults s.registry s.context n failure) :
    FaultAt (ps ++ [(place, n)]) failure :=
  right ⟨(place, n), List.mem_cons_self, s, hs, h⟩

/-- A fault of one of the nodes that share a place. -/
theorem all {ns : List Node} (hs : At false s place)
    (h : FaultIn s.registry s.context ns failure) : FaultAt (place.all ns) failure := by
  obtain ⟨n, hn, hf⟩ := h
  exact ⟨(place, n), List.mem_map.mpr ⟨n, hn, rfl⟩, s, hs, hf⟩

end FaultAt

/-- Definitions fail for the first that is at fault, in a state with those before it. -/
theorem varDefs_faults {isConstant : Bool} {basic : BasicType} :
    ∀ {ds : List VarDef} {s : State} {place : Place}, At false s place →
      Fails (varDefs isConstant basic ds) s failure → FaultAt (VarDef.allPlaces place ds) failure
  | [], _, _, _, h => by
    rw [varDefs] at h
    simp at h
  | d :: ds, s, place, hs, h => by
    rw [varDefs] at h
    rw [VarDef.allPlaces]
    rcases Fails.bind.mp h with hd | ⟨d', s₁, hd, h⟩
    · exact (FaultAt.all hs (varDef_faults hd)).left
    rcases Fails.bind.mp h with hds | ⟨ds', s₂, _, h⟩
    · exact (varDefs_faults (hs.varDef hd) hds).right
    · simp at h

/-- A declaration fails for a fault at one of its places. -/
theorem decl_faults {d : Decl} (hs : At false s place) (h : Fails (decl d) s failure) :
    FaultAt (d.places place) failure := by
  unfold decl at h
  rcases Fails.bind.mp h with hdefs | ⟨defs, s₁, _, h⟩
  · exact (varDefs_faults hs hdefs).left
  · simp at h

mutual

/-- A statement fails for a fault at one of its places, by recursion on the tree. -/
theorem stmt_faults :
    ∀ {t : Stmt} {s : State} {place : Place}, At false s place → Fails (stmt t) s failure →
      FaultAt (t.places place) failure
  | ⟨id, .assign target value, span, hasReturn⟩, s, place, hs, h => by
    rw [stmt] at h
    rw [Stmt.places, StmtKind.places]
    rcases Fails.bind.mp h with h | ⟨_, _, _, h⟩
    · exact (FaultAt.all hs (assignment_faults h)).left
    · simp at h
  | ⟨id, .expr none, span, hasReturn⟩, _, _, _, h => by
    rw [stmt] at h
    simp at h
  | ⟨id, .expr (some value), span, hasReturn⟩, s, place, hs, h => by
    rw [stmt] at h
    rw [Stmt.places, StmtKind.places]
    rcases Fails.bind.mp h with h | ⟨⟨_, _⟩, _, _, h⟩
    · exact (FaultAt.all hs (checkExpr_faults (Fails.look.mp h))).left
    · simp at h
  | ⟨id, .block b, span, hasReturn⟩, s, place, hs, h => by
    rw [stmt] at h
    rw [Stmt.places, StmtKind.places]
    rcases Fails.bind.mp h with h | ⟨_, _, _, h⟩
    · exact (block_faults hs h).left
    · simp at h
  | ⟨id, .cond test thenBranch none, span, hasReturn⟩, s, place, hs, h => by
    rw [stmt] at h
    rw [Stmt.places, StmtKind.places]
    rcases Fails.bind.mp h with htest | ⟨_, s₁, htest, h⟩
    · exact (FaultAt.all hs (condition_faults htest)).left.left
    have hs₁ := hs.keep (.of_reads (condition_reads test)) htest
    rcases Fails.bind.mp h with hthen | ⟨_, _, _, h⟩
    · exact (stmt_faults hs₁ hthen).right.left
    · simp at h
  | ⟨id, .cond test thenBranch (some elseBranch), span, hasReturn⟩, s, place, hs, h => by
    rw [stmt] at h
    rw [Stmt.places, StmtKind.places]
    rcases Fails.bind.mp h with htest | ⟨_, s₁, htest, h⟩
    · exact (FaultAt.all hs (condition_faults htest)).left.left
    have hs₁ := hs.keep (.of_reads (condition_reads test)) htest
    rcases Fails.bind.mp h with hthen | ⟨_, s₂, hthen, h⟩
    · exact (stmt_faults hs₁ hthen).left.right.left
    have hs₂ := hs₁.keep (stmt_keeps thenBranch) hthen
    rcases Fails.bind.mp h with helse | ⟨_, _, _, h⟩
    · exact (stmt_faults hs₂ helse).right.right.left
    · simp at h
  | ⟨id, .loop test body, span, hasReturn⟩, s, place, hs, h => by
    rw [stmt] at h
    rw [Stmt.places, StmtKind.places]
    rcases Fails.bind.mp h with htest | ⟨_, s₁, htest, h⟩
    · exact (FaultAt.all hs (condition_faults htest)).left.left
    have hs₁ := hs.keep (.of_reads (condition_reads test)) htest
    rcases Fails.bind.mp h with hbody | ⟨_, _, _, h⟩
    · exact (stmt_faults (hs₁.inLoop id) (Fails.inLoop.mp hbody)).right.left
    · simp at h
  | ⟨id, .leave target, span, hasReturn⟩, s, place, hs, h => by
    rw [stmt] at h
    rw [Stmt.places]
    rcases Fails.bind.mp h with h | ⟨_, _, _, h⟩
    · obtain ⟨hloops, rfl⟩ := innermostLoop_fails h
      exact .here hs (.blame (.leave rfl hloops))
    · simp at h
  | ⟨id, .next target, span, hasReturn⟩, s, place, hs, h => by
    rw [stmt] at h
    rw [Stmt.places]
    rcases Fails.bind.mp h with h | ⟨_, _, _, h⟩
    · obtain ⟨hloops, rfl⟩ := innermostLoop_fails h
      exact .here hs (.blame (.next rfl hloops))
    · simp at h
  | ⟨id, .ret value function, span, hasReturn⟩, s, place, hs, h => by
    rw [stmt] at h
    rcases Fails.bind.mp h with h | ⟨_, _, _, h⟩
    · have hall := FaultAt.all hs
        (returning_faults (t := ⟨id, .ret value function, span, hasReturn⟩) h)
      rw [Stmt.places, StmtKind.places]
      -- the statement comes after its value, at the same place
      simpa [Place.all] using hall
    · simp at h

theorem block_faults :
    ∀ {b : Block} {s : State} {place : Place}, At false s place → Fails (block b) s failure →
      FaultAt (b.places place) failure
  | ⟨id, items, span, scope, hasReturn⟩, s, place, hs, h => by
    rw [block] at h
    rw [Block.places]
    rcases Fails.bind.mp h with h | ⟨⟨_, _, _⟩, _, _, h⟩
    · exact (blockItems_faults hs.inScope (Fails.inScope.mp h)).left
    · simp at h

theorem blockItems_faults :
    ∀ {items : List BlockItem} {s : State} {place : Place}, At false s place →
      Fails (blockItems items) s failure → FaultAt (BlockItem.allPlaces place items) failure
  | [], _, _, _, h => by
    rw [blockItems] at h
    simp at h
  | .decl d :: rest, s, place, hs, h => by
    rw [blockItems] at h
    rw [BlockItem.allPlaces]
    rcases Fails.bind.mp h with hd | ⟨d', s₁, hd, h⟩
    · exact (decl_faults hs hd).left
    rcases Fails.bind.mp h with hrest | ⟨⟨_, _⟩, _, _, h⟩
    · exact (blockItems_faults (hs.decl hd) hrest).right
    · simp at h
  | .stmt t :: rest, s, place, hs, h => by
    rw [blockItems] at h
    rw [BlockItem.allPlaces]
    rcases Fails.bind.mp h with ht | ⟨t', s₁, ht, h⟩
    · exact (stmt_faults hs ht).left
    have hs₁ := hs.keep (stmt_keeps t) ht
    rcases Fails.bind.mp h with hrest | ⟨⟨_, _⟩, _, _, h⟩
    · exact (blockItems_faults hs₁ hrest).right
    · simp at h

end

/-! ## Functions and programs -/

/-- Parameters fail for the first that is at fault. -/
theorem params_faults {function : FunctionId} :
    ∀ {ps : List Param} {s : State} {place : Place}, At false s place →
      Fails (params function ps) s failure → FaultAt (Param.allPlaces place ps) failure
  | [], _, _, _, h => by
    rw [params] at h
    simp at h
  | p :: ps, s, place, hs, h => by
    rw [params] at h
    rw [Param.allPlaces]
    rcases Fails.bind.mp h with hp | ⟨p', s₁, hp, h⟩
    · exact ⟨_, List.mem_cons_self, s, hs, param_faults hp⟩
    rcases Fails.bind.mp h with hps | ⟨ps', s₂, _, h⟩
    · obtain ⟨x, hx, hfault⟩ := params_faults (hs.param hp) hps
      exact ⟨x, List.mem_cons_of_mem _ hx, hfault⟩
    · simp at h

/-- A function definition fails for its name or for a fault at one of its places. -/
theorem funcDef_faults {f : FuncDef} {globals : List (String × Option SymbolId)}
    (hs : At false s (.top globals)) (h : Fails (funcDef f) s failure) :
    FaultAt (f.places globals) failure := by
  unfold funcDef at h
  rw [FuncDef.places]
  rcases Fails.bind.mp h with h | ⟨⟨_, _, _, _⟩, _, _, h⟩
  · rcases Fails.bind.mp (Fails.inScope.mp h) with hname | ⟨fn, s₁, hname, h⟩
    -- the definition itself stands outside of its scope
    · exact (FaultAt.here hs
        (refused_faults (n := .func f) rfl newFunction_error (Fails.declare.mp hname))).right
    obtain ⟨r, hr, rfl⟩ := declareFunction_ok.mp hname
    obtain ⟨_, hnew, rfl, rfl⟩ := Registry.newFunction_ok.mp hr
    have hparams := hs.inFunction f (g := f) hnew (fun he => absurd he (by simp))
    rcases Fails.bind.mp h with hbody | ⟨⟨_, _⟩, _, _, h⟩
    · rcases Fails.bind.mp (Fails.within.mp hbody) with hps | ⟨ps', s₂, hps, hbody⟩
      · exact (params_faults hparams hps).left
      rcases Fails.bind.mp hbody with hbody | ⟨_, _, _, h⟩
      · exact (block_faults (hparams.params hps) hbody).left.right
      · simp at h
    · simp at h
  · simp at h

/-- A program fails for the first item with a fault. -/
theorem items_faults :
    ∀ {is : List Item} {s : State} {globals : List (String × Option SymbolId)},
      At false s (.top globals) → Fails (items is) s failure →
      FaultAt (Item.allPlaces globals is) failure
  | [], _, _, _, h => by
    rw [items] at h
    simp at h
  | .decl d :: rest, s, globals, hs, h => by
    rw [items] at h
    rw [Item.allPlaces]
    rcases Fails.bind.mp h with hd | ⟨d', s₁, hd, h⟩
    · exact (decl_faults hs hd).left
    rcases Fails.bind.mp h with hrest | ⟨_, _, _, h⟩
    · exact (items_faults (hs.decl hd) hrest).right
    · simp at h
  | .func f :: rest, s, globals, hs, h => by
    rw [items] at h
    rw [Item.allPlaces]
    rcases Fails.bind.mp h with hf | ⟨f', s₁, hf, h⟩
    · exact (funcDef_faults hs hf).left
    rcases Fails.bind.mp h with hrest | ⟨_, _, _, h⟩
    · exact (items_faults (hs.funcDef hf) hrest).right
    · simp at h

end

/-- A program that is rejected has a node at fault. -/
theorem typeCheck_faults {withBuiltins : Bool} {p : Program} {failure : Failure} {r : Registry}
    (h : typeCheck withBuiltins p = (.error failure, r)) : FaultAt p.places failure := by
  obtain ⟨s, hs, _⟩ := typeCheck_error.mp h
  exact items_faults (at_start false withBuiltins) ⟨s, hs⟩

/-! ## Sources -/

/-- The diagnostic with which a program is rejected. -/
def rejection? (withBuiltins : Bool) (p : Program) : Option Diagnostic :=
  match (typeCheck withBuiltins p).1 with
  | .error (.diagnostic d) => some d
  | _ => none

/-- What the rejection of a program says is what checking it gives. -/
theorem typeCheck_of_rejection? {withBuiltins : Bool} {p : Program} {d : Diagnostic}
    (h : rejection? withBuiltins p = some d) :
    ∃ r, typeCheck withBuiltins p = (.error (.diagnostic d), r) := by
  unfold rejection? at h
  split at h
  next d' hd =>
    obtain rfl := Option.some.inj h
    exact ⟨(typeCheck withBuiltins p).2, Prod.ext hd rfl⟩
  next => cases h

/-- The cause for which the program that a source is read as is rejected. -/
def sourceCause? (withBuiltins : Bool) (source : String) : Option Cause :=
  (readSource? source).bind fun p => (rejection? withBuiltins p).map Diagnostic.cause

/-- A source that is rejected for a cause is read, and its program fails. -/
theorem typeCheck_of_sourceCause? (withBuiltins : Bool) (source : String) {cause : Cause}
    (h : sourceCause? withBuiltins source = some cause) :
    ∃ p d r, readSource? source = some p ∧
      typeCheck withBuiltins p = (.error (.diagnostic d), r) ∧ d.cause = cause := by
  obtain ⟨p, hp, hrejection⟩ := Option.bind_eq_some_iff.mp h
  obtain ⟨d, hd, hcause⟩ := Option.map_eq_some_iff.mp hrejection
  obtain ⟨r, hcheck⟩ := typeCheck_of_rejection? hd
  exact ⟨p, d, r, hp, hcheck, hcause⟩

end CactLang.Typing
