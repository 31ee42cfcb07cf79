import CactLang.Registry

/-!
# Changes of the registry

An operation on the registry is a row of small steps, and each step writes one store. Adding a
function, say, writes it to the functions and then its name to the names. Between the two steps
the stores do not agree; what is said here is about the operation as a whole.

> `Change.Atomic change`: a refusal comes before the first step that writes, so a refused
> change leaves the registry as it was.
>
> `Indexed r`: names stand for the functions that have them.

Functions that are added under new names, and entries that keep their name, keep the stores in
step (`Indexed.declared`, `Indexed.updated`).
-/

namespace CactLang.Registry

/-! ## Changes as a whole -/

namespace Change

variable {α β : Type} {change : Change α} {r r' : Registry} {a : α} {refusal : Refusal}

/-- An attempt gives what the change gives. -/
theorem attempt_ok : change.attempt r = .ok (a, r') ↔ change r = .ok a r' := by
  unfold attempt
  cases change r <;> simp

/-- A change that was refused has written nothing. -/
def Atomic (change : Change α) : Prop :=
  ∀ (r r' : Registry) (refusal : Refusal), change r = .error refusal r' → r' = r

/-- However the change goes, what holds of the registry before holds after it. -/
def Maintains (P : Registry → Prop) (change : Change α) : Prop :=
  ∀ r, P r → P (change.outcome r).2

theorem outcome_ok (h : change r = .ok a r') : change.outcome r = (.ok a, r') := by
  rw [outcome, h]

/-- Giving something else does not change the registry. -/
theorem outcome_bind_pure (h : change r = .ok a r') (b : β) :
    (change >>= fun _ => Pure.pure b).outcome r = (.ok b, r') := by
  refine outcome_ok ?_
  show EStateM.bind change _ r = _
  rw [EStateM.bind, h]
  rfl

/-- A change that is refused leaves the registry as it was. -/
theorem Atomic.outcome (h : change.Atomic) (hrefused : (change.outcome r).1 = .error refusal) :
    (change.outcome r).2 = r := by
  unfold Change.outcome at hrefused ⊢
  cases hrun : change r with
  | ok a r' =>
    rw [hrun] at hrefused
    cases hrefused
  | error e r' => exact h r r' e hrun

/-- What a change gives may be replaced. -/
theorem Atomic.bind_pure (h : change.Atomic) (b : β) :
    (change >>= fun _ => Pure.pure b).Atomic := by
  intro r r' refusal hrun
  change EStateM.bind change _ r = _ at hrun
  unfold EStateM.bind at hrun
  cases hfirst : change r with
  | ok a r₁ =>
    rw [hfirst] at hrun
    cases hrun
  | error e r₁ =>
    rw [hfirst] at hrun
    obtain ⟨rfl, rfl⟩ := EStateM.Result.error.inj hrun
    exact h r r₁ e hfirst

variable {P : Registry → Prop}

/-- A change that writes nothing if it is refused need only be looked at where it goes through. -/
theorem Atomic.maintains (h : change.Atomic)
    (hok : ∀ {r r' : Registry} {a : α}, P r → change r = .ok a r' → P r') :
    change.Maintains P := by
  intro r hr
  unfold Change.outcome
  cases hrun : change r with
  | ok a r' => exact hok hr hrun
  | error refusal r' =>
    rw [h r r' refusal hrun]
    exact hr

theorem Maintains.pure (a : α) : (Pure.pure a : Change α).Maintains P :=
  fun _ hr => hr

/-- A property that both changes maintain is maintained by the two in a row. -/
theorem Maintains.bind {next : α → Change β} (hchange : change.Maintains P)
    (hnext : ∀ a, (next a).Maintains P) : (change >>= next).Maintains P := by
  intro r hr
  have hmid := hchange r hr
  unfold outcome at hmid
  show P (outcome (EStateM.bind change next) r).2
  unfold outcome EStateM.bind
  cases hrun : change r with
  | ok a r' =>
    rw [hrun] at hmid
    exact hnext a r' hmid
  | error refusal r' =>
    rw [hrun] at hmid
    exact hmid

end Change

/-! ## Variables -/

/-- The registry with a name bound to a new variable in a scope. -/
def bound (r : Registry) (c : ScopeId) (s : Scope) (name : String) (y : Symbol) : Registry :=
  { r with
    symbols := r.symbols.push y
    scopes := r.scopes.setIfInBounds c.index
      { s with bindings := s.bindings ++ [(name, ⟨r.symbols.size⟩)] } }

namespace Change

variable {r : Registry}

/-- Where nothing stands in the way, the variable is added and then its name. -/
theorem register_steps {c : ScopeId} {s : Scope} {name : String} {y : Symbol}
    (hs : r.scope? c = some s) :
    (do
      let id ← pushSymbol y
      bindName c name id
      return id : Change SymbolId) r = .ok ⟨r.symbols.size⟩ (r.bound c s name y) := by
  have hscope : ({ r with symbols := r.symbols.push y } : Registry).scope? c = some s := hs
  simp only [Bind.bind, EStateM.bind, pushSymbol, bindName, hscope]
  rfl

end Change

/-- What comes of binding a name, all steps together. -/
theorem register_eq (r : Registry) (c : ScopeId) (name : String) (y : Symbol) :
    r.register c name y =
      if r.global = some c ∧ (r.findFunction? name).isSome then .error (.cause (.duplicate name))
      else match r.scope? c with
        | none => .error .dangling
        | some s =>
          if (s.get? name).isSome then .error (.cause (.duplicate name))
          else .ok (⟨r.symbols.size⟩, r.bound c s name y) := by
  unfold register Change.attempt Change.register
  by_cases hfunction : r.global = some c ∧ (r.findFunction? name).isSome
  · rw [if_pos hfunction, if_pos hfunction]
  · rw [if_neg hfunction, if_neg hfunction]
    cases hs : r.scope? c with
    | none => rfl
    | some s =>
      dsimp only
      by_cases hget : (s.get? name).isSome
      · rw [if_pos hget, if_pos hget]
      · rw [if_neg hget, if_neg hget, Change.register_steps hs]

/-- A name is bound if it is new in its scope, and in the global scope new among the
functions too. -/
theorem register_ok {r r' : Registry} {c : ScopeId} {name : String} {y : Symbol} {v : SymbolId} :
    r.register c name y = .ok (v, r') ↔
      ∃ s, r.scope? c = some s ∧ s.get? name = none ∧
        (r.global = some c → r.findFunction? name = none) ∧
        v = ⟨r.symbols.size⟩ ∧ r' = r.bound c s name y := by
  rw [register_eq]
  constructor
  · intro h
    split at h
    next => exact absurd h (by simp)
    next hfn =>
      split at h
      next => exact absurd h (by simp)
      next s hs =>
        split at h
        next => exact absurd h (by simp)
        next hget =>
          simp only [Except.ok.injEq, Prod.mk.injEq] at h
          obtain ⟨rfl, rfl⟩ := h
          refine ⟨s, hs, by simpa using hget, fun hg => ?_, rfl, rfl⟩
          simpa [hg] using hfn
  · intro h
    obtain ⟨s, hs, hget, hfn, rfl, rfl⟩ := h
    have hcond : ¬(r.global = some c ∧ (r.findFunction? name).isSome = true) := by
      intro h
      obtain ⟨hg, hsome⟩ := h
      rw [hfn hg] at hsome
      exact absurd hsome (by simp)
    rw [if_neg hcond]
    simp only [hs, hget]
    rfl

/-- A variable is refused before anything is written. -/
theorem Change.register_atomic (c : ScopeId) (name : String) (y : Symbol) :
    (Change.register c name y).Atomic := by
  intro r r' refusal h
  unfold Change.register at h
  split at h
  next => exact (EStateM.Result.error.inj h).2.symm
  next =>
    split at h
    next => exact (EStateM.Result.error.inj h).2.symm
    next s hs =>
      split at h
      next => exact (EStateM.Result.error.inj h).2.symm
      next =>
        rw [register_steps hs] at h
        cases h

/-! ## Functions -/

/-- The registry with other functions and names of functions. -/
def withFunctions (r : Registry) (functions : Array Signature)
    (functionNames : List (String × FunctionId)) : Registry :=
  { r with functions, functionNames }

/-- The registry with a function after the others, and its name. -/
def declared (r : Registry) (signature : Signature) : Registry :=
  r.withFunctions (r.functions.push signature)
    (r.functionNames ++ [(signature.name, ⟨r.functions.size⟩)])

/-- The registry with another entry for a function. -/
def updated (r : Registry) (id : FunctionId) (signature : Signature) : Registry :=
  r.withFunctions (r.functions.setIfInBounds id.index signature) r.functionNames

theorem updated_self {r : Registry} {id : FunctionId} {f : Signature}
    (hf : r.function? id = some f) : r.updated id f = r := by
  obtain ⟨hlt, hget⟩ := Array.getElem?_eq_some_iff.mp hf
  have hset : r.functions.setIfInBounds id.index f = r.functions := by
    rw [Array.setIfInBounds, dif_pos hlt, ← hget]
    exact Array.set_getElem_self hlt
  rw [updated, withFunctions, hset]

/-- Of two entries for a function, the second one counts. -/
theorem updated_updated (r : Registry) (id : FunctionId) (f g : Signature) :
    (r.updated id f).updated id g = r.updated id g := by
  unfold updated withFunctions
  rw [Array.setIfInBounds_setIfInBounds]

/-- A new function that is given another entry of its name was declared with that entry. -/
theorem updated_declared (r : Registry) {f g : Signature} (hname : g.name = f.name) :
    (r.declared f).updated ⟨r.functions.size⟩ g = r.declared g := by
  have hset : (r.functions.push f).setIfInBounds r.functions.size g = r.functions.push g := by
    rw [Array.setIfInBounds, dif_pos (by simp), Array.set_push, dif_neg (Nat.lt_irrefl _)]
  unfold updated declared withFunctions
  rw [hset, hname]

/-- Where nothing stands in the way, the function is added and then its name. -/
theorem Change.newFunction_steps (r : Registry) (signature : Signature) :
    (do
      let id ← pushFunction signature
      enterName signature.name id
      return id : Change FunctionId) r = .ok ⟨r.functions.size⟩ (r.declared signature) :=
  rfl

/-- A function is added if its name is new among the functions and the variables of
the global scope. -/
theorem Change.newFunction_ok {r r' : Registry} {name : String} {returns : BasicType}
    {f : FunctionId} :
    Change.newFunction name returns r = .ok f r' ↔
      r.globalBinds name = .ok false ∧ r.findFunction? name = none ∧
        f = ⟨r.functions.size⟩ ∧ r' = r.declared { name, returns := .scalar returns } := by
  unfold Change.newFunction
  cases r.globalBinds name with
  | error refusal => simp
  | ok binds =>
    dsimp only
    cases binds with
    | true => simp
    | false =>
      cases r.findFunction? name with
      | some _ => simp
      | none =>
        simp only [Option.isSome_none, Bool.or_self, Bool.false_eq_true, if_false, true_and]
        rw [Change.newFunction_steps r { name, returns := .scalar returns },
          EStateM.Result.ok.injEq]
        exact and_congr eq_comm eq_comm

/-- What comes of adding a function, all steps together. -/
theorem newFunction_eq (r : Registry) (name : String) (returns : BasicType) :
    r.newFunction name returns = (r.globalBinds name).bind fun binds =>
      if binds || (r.findFunction? name).isSome then .error (.cause (.duplicate name))
      else .ok (⟨r.functions.size⟩, r.declared { name, returns := .scalar returns }) := by
  unfold newFunction Change.attempt Change.newFunction
  cases r.globalBinds name with
  | error refusal => rfl
  | ok binds =>
    dsimp only [Except.bind]
    by_cases htaken : binds || (r.findFunction? name).isSome
    · rw [if_pos htaken, if_pos htaken]
    · rw [if_neg htaken, if_neg htaken,
        Change.newFunction_steps r { name, returns := .scalar returns }]

/-- A function is added if its name is new, under the next handle. -/
theorem newFunction_ok {r r' : Registry} {name : String} {returns : BasicType}
    {f : FunctionId} :
    r.newFunction name returns = .ok (f, r') ↔
      r.globalBinds name = .ok false ∧ r.findFunction? name = none ∧
        f = ⟨r.functions.size⟩ ∧ r' = r.declared { name, returns := .scalar returns } :=
  Change.attempt_ok.trans Change.newFunction_ok

/-- A function is changed if it has an entry. -/
theorem Change.updateFunction_ok {r r' : Registry} {id : FunctionId}
    {update : Signature → Signature} {u : Unit} :
    Change.updateFunction id update r = .ok u r' ↔
      ∃ f, r.function? id = some f ∧ r' = r.updated id (update f) := by
  unfold Change.updateFunction
  cases r.function? id with
  | none => simp
  | some f =>
    simp only [EStateM.Result.ok.injEq, Option.some.injEq, exists_eq_left', true_and]
    exact eq_comm

/-- What comes of adding a parameter. -/
theorem addParameter_eq (r : Registry) (id : FunctionId) (p : Parameter) :
    r.addParameter id p = match r.function? id with
      | none => .error .dangling
      | some f => .ok (r.updated id { f with parameters := f.parameters ++ [p] }) := by
  unfold addParameter Change.attempt Change.addParameter Change.updateFunction
  cases r.function? id <;> rfl

/-- A parameter is added if the function has an entry. -/
theorem addParameter_ok {r r' : Registry} {id : FunctionId} {p : Parameter} :
    r.addParameter id p = .ok r' ↔
      ∃ f, r.function? id = some f ∧
        r' = r.updated id { f with parameters := f.parameters ++ [p] } := by
  rw [addParameter_eq]
  cases r.function? id with
  | none => simp
  | some f =>
    simp only [Except.ok.injEq, Option.some.injEq, exists_eq_left']
    exact eq_comm

theorem map_pair_ok {x : Except Refusal Registry} {u : Unit} {r' : Registry} :
    x.map ((), ·) = .ok (u, r') ↔ x = .ok r' := by
  cases x <;> simp [Except.map]

/-- A function is refused before anything is written. -/
theorem Change.newFunction_atomic (name : String) (returns : BasicType) :
    (Change.newFunction name returns).Atomic := by
  intro r r' refusal h
  unfold Change.newFunction at h
  split at h
  next => exact (EStateM.Result.error.inj h).2.symm
  next =>
    split at h
    next => exact (EStateM.Result.error.inj h).2.symm
    next =>
      rw [newFunction_steps r { name, returns := .scalar returns }] at h
      cases h

theorem Change.updateFunction_atomic (id : FunctionId) (update : Signature → Signature) :
    (Change.updateFunction id update).Atomic := by
  intro r r' refusal h
  unfold Change.updateFunction at h
  split at h
  next => exact (EStateM.Result.error.inj h).2.symm
  next => cases h

/-- What is kept by new functions, and by entries that keep their name, is kept while built-in
functions are added. -/
theorem Change.Maintains.addBuiltins {P : Registry → Prop}
    (hnew : ∀ name returns, (Change.newFunction name returns).Maintains P)
    (hupdate : ∀ (id : FunctionId) (update : Signature → Signature),
      (∀ f, (update f).name = f.name) → (Change.updateFunction id update).Maintains P)
    (fs : List Signature) : (Change.addBuiltins fs).Maintains P := by
  have hparameters : ∀ (id : FunctionId) (ps : List Parameter),
      (Change.addParameters id ps).Maintains P := by
    intro id ps
    induction ps with
    | nil => exact .pure ()
    | cons p ps ih => exact .bind (hupdate id _ fun _ => rfl) fun _ => ih
  induction fs with
  | nil => exact .pure ()
  | cons f fs ih =>
    refine .bind (.bind (hnew f.name f.returns.basic) fun id => ?_) fun _ => ih
    exact .bind (hupdate id _ fun _ => rfl) fun _ => hparameters id f.parameters

/-! ## Names of functions -/

/-- The names of functions that are added one after the other, the first of them at `k`. -/
def namesFrom (k : Nat) (added : List Signature) : List (String × FunctionId) :=
  (added.zipIdx k).map fun f => (f.1.name, ⟨f.2⟩)

/-- A name without an entry is not looked up. -/
theorem lookup_eq_none {β : Type} {entries : List (String × β)} {name : String} :
    entries.lookup name = none ↔ name ∉ entries.map Prod.fst := by
  rw [List.lookup_eq_none_iff, List.mem_map]
  constructor
  · rintro h ⟨p, hp, rfl⟩
    exact absurd (h p hp) (by simp)
  · intro h p hp
    rw [bne_iff_ne]
    exact fun hname => h ⟨p, hp, hname.symm⟩

/-- A function has a name. -/
def Names (r : Registry) (f : FunctionId) (name : String) : Prop :=
  ∃ signature, r.function? f = some signature ∧ signature.name = name

/-- Names stand for the functions that have them: the two stores agree. -/
def Indexed (r : Registry) : Prop :=
  ∀ (name : String) (f : FunctionId), r.findFunction? name = some f ↔ r.Names f name

section

variable {r r' : Registry} {name : String} {f : FunctionId} {signature : Signature}

theorem indexed_empty : Indexed {} := by
  intro name f
  simp [findFunction?, Names, function?]

/-- Where neither the functions nor their names change, the stores still agree. -/
theorem Indexed.congr (h : r.Indexed) (hfunctions : r'.functions = r.functions)
    (hnames : r'.functionNames = r.functionNames) : r'.Indexed := by
  intro name f
  unfold Names findFunction? function?
  rw [hfunctions, hnames]
  exact h name f

/-- A name that finds nothing is the name of no function. -/
theorem Indexed.findFunction?_eq_none (h : r.Indexed) :
    r.findFunction? name = none ↔ ∀ f, ¬r.Names f name := by
  rw [Option.eq_none_iff_forall_ne_some]
  exact forall_congr' fun f => not_congr (h name f)

/-- The names after adding a function are those before and its own. -/
theorem declared_names :
    (r.declared signature).Names f name ↔
      r.Names f name ∨ f = ⟨r.functions.size⟩ ∧ signature.name = name := by
  obtain ⟨k⟩ := f
  simp only [Names, function?, declared, withFunctions, Array.getElem?_push, FunctionId.mk.injEq]
  by_cases hk : k = r.functions.size
  · subst hk
    simp
  · simp [hk]

/-- A new function is found by its name unless another one was there. -/
theorem declared_findFunction? :
    (r.declared signature).findFunction? name =
      (r.findFunction? name).or
        (if name = signature.name then some ⟨r.functions.size⟩ else none) := by
  unfold findFunction? declared withFunctions
  rw [List.lookup_append, List.lookup_cons, List.lookup_nil]
  by_cases hname : name = signature.name
  · rw [if_pos hname, hname, beq_self_eq_true]
  · rw [if_neg hname, beq_eq_false_iff_ne.mpr hname]

/-- A function of a new name is found under it, and every other name stands for what it stood
for. -/
theorem Indexed.declared (h : r.Indexed) (hnew : r.findFunction? signature.name = none) :
    (r.declared signature).Indexed := by
  intro name f
  rw [declared_findFunction?, declared_names, ← h name f]
  by_cases hname : name = signature.name
  · subst hname
    simp [hnew, eq_comm]
  · have hother : ¬(f = ⟨r.functions.size⟩ ∧ signature.name = name) :=
      fun hf => hname hf.2.symm
    rw [if_neg hname, Option.or_none, or_iff_left hother]

/-- An entry that keeps its name changes no name. -/
theorem updated_names {g : FunctionId} {old : Signature} (hf : r.function? f = some old)
    (hname : signature.name = old.name) :
    (r.updated f signature).Names g name ↔ r.Names g name := by
  simp only [Names, function?, updated, withFunctions, Array.getElem?_setIfInBounds]
  by_cases hfg : f.index = g.index
  · have hold : r.functions[g.index]? = some old := hfg ▸ hf
    obtain ⟨hlt, hget⟩ := Array.getElem?_eq_some_iff.mp hold
    simp [hfg, hlt, hget, hname]
  · simp [hfg]

/-- A change that keeps the name keeps the index right. -/
theorem Indexed.updated {old : Signature} (h : r.Indexed) (hf : r.function? f = some old)
    (hname : signature.name = old.name) : (r.updated f signature).Indexed := by
  intro name g
  rw [updated_names hf hname]
  exact h name g

/-- The built-in functions keep the index right, even if one of them is refused. -/
theorem indexed_addBuiltins (h : r.Indexed) : r.addBuiltins.2.Indexed := by
  refine Change.Maintains.addBuiltins (fun name returns => ?_) (fun id update hname => ?_)
    builtins r h
  · refine (Change.newFunction_atomic name returns).maintains fun hr hrun => ?_
    obtain ⟨_, hnew, _, rfl⟩ := Change.newFunction_ok.mp hrun
    exact hr.declared hnew
  · refine (Change.updateFunction_atomic id update).maintains fun hr hrun => ?_
    obtain ⟨f, hf, rfl⟩ := Change.updateFunction_ok.mp hrun
    exact hr.updated hf (hname f)

end

end CactLang.Registry
