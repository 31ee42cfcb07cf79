import CactLang.Proofs.ScopeStack

/-!
# Runs of the registry

The registry is filled by a handful of operations, and none of them looks at the whole of
it. That handles, scopes and names fit together is kept by each operation on its own, also
by one that fails half-way.

> `Reaches r r'`: operations, each with handles that name entries, lead from `r` to `r'`.
>
> `WellFormed r`: scopes form a tree below the global scope, every variable is bound at one
> place, the names of functions agree with the functions, and no function has the name of a
> global variable.

Every registry that is reached from the empty one is well-formed (`Reaches.wellFormed`).
It follows that the scopes around a scope are a stack that ends with the global scope
(`WellFormed.stack`), so that looking up a name comes to an end and finds the nearest
binding.
-/

namespace CactLang.Registry

/-! ## Operations -/

/-- A change that can be asked of a registry. -/
inductive Operation where
  | ensureGlobal
  | newScope (parent : ScopeId)
  | register (scope : ScopeId) (name : String) (symbol : Symbol)
  | newFunction (name : String) (returns : BasicType)
  | addParameter (function : FunctionId) (parameter : Parameter)
  | addBuiltins
  deriving DecidableEq, Repr

namespace Operation

/-- The steps of an operation. -/
def change : Operation → Change Unit
  | ensureGlobal => fun r => .ok () r.ensureGlobal.2
  | newScope parent => fun r => .ok () (r.newScope parent).2
  | register scope name symbol => do let _ ← Change.register scope name symbol
  | newFunction name returns => do let _ ← Change.newFunction name returns
  | addParameter function parameter => Change.addParameter function parameter
  | addBuiltins => Change.addBuiltins builtins

/-- Whether the operation goes through, and the registry after it. -/
def run (op : Operation) (r : Registry) : Except Refusal Unit × Registry :=
  op.change.outcome r

/-- Whether the handle that the operation is given names an entry. -/
def fits (r : Registry) : Operation → Bool
  | newScope parent => (r.scope? parent).isSome
  | register scope _ _ => (r.scope? scope).isSome
  | addParameter function _ => (r.function? function).isSome
  | _ => true

end Operation

/-- Operations, each with a handle that names an entry, lead from one registry to another.
They need not go through. -/
inductive Reaches (r : Registry) : Registry → Prop where
  | refl : Reaches r r
  | step {r' : Registry} (op : Operation) : Reaches r r' → op.fits r' = true →
      Reaches r (op.run r').2

/-- One run after the other is a run. -/
theorem Reaches.trans {r₁ r₂ r₃ : Registry} (h₁ : Reaches r₁ r₂) (h₂ : Reaches r₂ r₃) :
    Reaches r₁ r₃ := by
  induction h₂ with
  | refl => exact h₁
  | step op _ hfits ih => exact .step op ih hfits

/-- The registry after operations one by one, unless one of them has a handle that names
nothing. -/
def Operation.runAll : List Operation → Registry → Option Registry
  | [], r => some r
  | op :: ops, r => if op.fits r then runAll ops (op.run r).2 else none

/-- A run that is computed is a run. -/
theorem reaches_of_runAll {ops : List Operation} {r r' : Registry}
    (h : Operation.runAll ops r = some r') : Reaches r r' := by
  induction ops generalizing r with
  | nil =>
    obtain rfl := Option.some.inj h
    exact .refl
  | cons op ops ih =>
    rw [Operation.runAll] at h
    split at h
    next hfits => exact (Reaches.step op .refl hfits).trans (ih h)
    next => cases h

namespace Operation

variable {r r' : Registry}

theorem run_register {c : ScopeId} {name : String} {y : Symbol} {v : SymbolId}
    (h : r.register c name y = .ok (v, r')) : (register c name y).run r = (.ok (), r') :=
  Change.outcome_bind_pure (Change.attempt_ok.mp h) ()

theorem run_newFunction {name : String} {returns : BasicType} {f : FunctionId}
    (h : r.newFunction name returns = .ok (f, r')) :
    (newFunction name returns).run r = (.ok (), r') :=
  Change.outcome_bind_pure (Change.attempt_ok.mp h) ()

theorem run_addParameter {f : FunctionId} {p : Parameter} (h : r.addParameter f p = .ok r') :
    (addParameter f p).run r = (.ok (), r') := by
  obtain ⟨signature, hf, rfl⟩ := addParameter_ok.mp h
  exact Change.outcome_ok (Change.updateFunction_ok.mpr ⟨signature, hf, rfl⟩)

/-- Every operation but one checks all that it needs before it writes. The built-in functions
are added one by one, and those before a refusal stay. -/
theorem change_atomic {op : Operation} (h : op ≠ addBuiltins) : op.change.Atomic := by
  cases op with
  | ensureGlobal => exact fun _ _ _ hrun => by cases hrun
  | newScope parent => exact fun _ _ _ hrun => by cases hrun
  | register c name y => exact (Change.register_atomic c name y).bind_pure ()
  | newFunction name returns => exact (Change.newFunction_atomic name returns).bind_pure ()
  | addParameter f p => exact Change.updateFunction_atomic f _
  | addBuiltins => exact absurd rfl h

end Operation

/-! ## What a registry says of names -/

/-- A scope binds a name to a variable. -/
def Binds (r : Registry) (c : ScopeId) (name : String) (v : SymbolId) : Prop :=
  ∃ s, r.scope? c = some s ∧ (name, v) ∈ s.bindings

variable {r r' : Registry} {c : ScopeId} {s : Scope} {name : String} {v : SymbolId}
  {f : FunctionId}

/-- An entry of a new name keeps the names apart. -/
theorem nodup_names_append {β : Type} {entries : List (String × β)}
    (h : (entries.map Prod.fst).Nodup) (hnew : entries.lookup name = none) (b : β) :
    ((entries ++ [(name, b)]).map Prod.fst).Nodup := by
  rw [List.map_append, List.nodup_append]
  refine ⟨h, by simp, ?_⟩
  rintro _ ha _ hb rfl
  obtain rfl := List.mem_singleton.mp hb
  exact lookup_eq_none.mp hnew ha

/-- A name is free in a scope if no binding has it. -/
theorem get?_eq_none : s.get? name = none ↔ ∀ v, (name, v) ∉ s.bindings := by
  rw [Scope.get?, lookup_eq_none]
  simp

/-- A name is found in a scope if it is bound there. -/
theorem get?_isSome (hs : r.scope? c = some s) :
    (s.get? name).isSome = true ↔ ∃ v, r.Binds c name v := by
  rw [Option.isSome_iff_ne_none, ne_eq, get?_eq_none]
  simp [Binds, hs]

/-- Where no name is bound twice, what is found under a name is what it is bound to. -/
theorem get?_eq_some (hs : (s.bindings.map Prod.fst).Nodup) :
    s.get? name = some v ↔ (name, v) ∈ s.bindings := by
  rw [Scope.get?]
  generalize s.bindings = bs at hs
  induction bs with
  | nil => simp
  | cons b bs ih =>
    obtain ⟨n, w⟩ := b
    rw [List.map_cons, List.nodup_cons] at hs
    rw [List.lookup_cons, List.mem_cons]
    by_cases hn : name = n
    · subst hn
      have hnot : (name, v) ∉ bs := fun hv => hs.1 (List.mem_map.mpr ⟨_, hv, rfl⟩)
      simp [hnot, eq_comm]
    · rw [beq_eq_false_iff_ne.mpr hn]
      simp only [ih hs.2, Prod.mk.injEq, hn, false_and, false_or]

/-- A function is found by its name if there is one of this name. -/
theorem Indexed.findFunction?_isSome (h : r.Indexed) :
    (r.findFunction? name).isSome = true ↔ ∃ f, r.Names f name := by
  rw [Option.isSome_iff_ne_none, ne_eq, h.findFunction?_eq_none]
  simp

/-! ## Well-formed registries -/

/-- The handles, scopes and names of a registry fit together. -/
structure WellFormed (r : Registry) : Prop where
  /-- The handle of a scope is its place. -/
  place : ∀ {id : ScopeId} {s : Scope}, r.scope? id = some s → s.id = id
  /-- A scope comes after the one around it. -/
  parent : ∀ {id p : ScopeId} {s : Scope}, r.scope? id = some s → s.parent = some p →
    p.index < id.index
  /-- The global scope, and no other, has none around it. -/
  root : ∀ {id : ScopeId} {s : Scope}, r.scope? id = some s →
    (s.parent = none ↔ r.global = some id)
  global : ∀ {id : ScopeId}, r.global = some id → (r.scope? id).isSome = true
  /-- No scope binds a name twice. -/
  names : ∀ {id : ScopeId} {s : Scope}, r.scope? id = some s → (s.bindings.map Prod.fst).Nodup
  /-- What is bound is there. -/
  range : ∀ {c : ScopeId} {name : String} {v : SymbolId}, r.Binds c name v →
    (r.symbol? v).isSome = true
  /-- Every variable is bound. -/
  bound : ∀ {v : SymbolId}, (r.symbol? v).isSome = true → ∃ c name, r.Binds c name v
  /-- No variable is bound twice. -/
  once : ∀ {c c' : ScopeId} {name name' : String} {v : SymbolId}, r.Binds c name v →
    r.Binds c' name' v → c' = c ∧ name' = name
  /-- No name of a function is entered twice. -/
  functionNames : (r.functionNames.map Prod.fst).Nodup
  /-- The names of functions stand for the functions that have them. -/
  indexed : r.Indexed
  /-- No function has the name of a global variable. -/
  apart : ∀ {c : ScopeId} {name : String} {v : SymbolId} {f : FunctionId}, r.global = some c →
    r.Binds c name v → ¬r.Names f name

theorem wellFormed_empty : WellFormed {} := by
  have hscope : ∀ {id : ScopeId} {s : Scope}, ({} : Registry).scope? id ≠ some s := by
    simp [scope?]
  have hbinds : ∀ {c : ScopeId} {name : String} {v : SymbolId}, ¬({} : Registry).Binds c name v :=
    fun ⟨_, hs, _⟩ => hscope hs
  exact {
    place := fun hs => absurd hs hscope
    parent := fun hs => absurd hs hscope
    root := fun hs => absurd hs hscope
    global := fun hg => by cases hg
    names := fun hs => absurd hs hscope
    range := fun hb => absurd hb hbinds
    bound := fun hv => by simp [symbol?] at hv
    once := fun hb => absurd hb hbinds
    functionNames := List.nodup_nil
    indexed := indexed_empty
    apart := fun hg => by cases hg }

/-! ### New scopes -/

/-- The scopes after adding one are those before and the new one. -/
theorem pushScope_scope?_eq {parent : Option ScopeId} {id : ScopeId} :
    (r.pushScope parent).2.scope? id = some s ↔
      r.scope? id = some s ∨ id = ⟨r.scopes.size⟩ ∧ s = { id := ⟨r.scopes.size⟩, parent } := by
  constructor
  · intro h
    by_cases hid : id = ⟨r.scopes.size⟩
    · subst hid
      rw [pushScope_scope?_new] at h
      exact Or.inr ⟨rfl, (Option.some.inj h).symm⟩
    · have hne : id.index ≠ r.scopes.size := fun he => hid (by cases id; simp_all)
      rw [scope?, pushScope, Array.getElem?_push, if_neg hne] at h
      exact Or.inl h
  · rintro (h | ⟨rfl, rfl⟩)
    · exact pushScope_scope? h
    · exact pushScope_scope?_new r parent

/-- A new scope binds nothing. -/
theorem pushScope_binds {parent : Option ScopeId} :
    (r.pushScope parent).2.Binds c name v ↔ r.Binds c name v := by
  constructor
  · rintro ⟨s, hs, hv⟩
    rcases pushScope_scope?_eq.mp hs with hs | ⟨_, rfl⟩
    · exact ⟨s, hs, hv⟩
    · cases hv
  · rintro ⟨s, hs, hv⟩
    exact ⟨s, pushScope_scope? hs, hv⟩

/-- A scope may be added below an existing one. One that is below none must become the
global scope, if there is none yet. -/
theorem WellFormed.pushScope (h : WellFormed r) {parent global : Option ScopeId}
    (hparent : ∀ p, parent = some p → (r.scope? p).isSome = true)
    (hglobal : global = r.global ∨ r.global = none ∧ global = some ⟨r.scopes.size⟩)
    (hroot : parent = none ↔ global = some ⟨r.scopes.size⟩) :
    WellFormed { (r.pushScope parent).2 with global } := by
  -- no scope that was there becomes the global one
  have hold : ∀ {id : ScopeId} {s : Scope}, r.scope? id = some s →
      (global = some id ↔ r.global = some id) := by
    intro id s hs
    rcases hglobal with rfl | ⟨hnone, rfl⟩
    · exact Iff.rfl
    · rw [hnone]
      exact ⟨fun he => absurd he (scope?_ne_new hs), fun he => by cases he⟩
  -- the new scope binds nothing, so the bindings are the old ones
  have hbinds : ∀ {c : ScopeId} {name : String} {v : SymbolId},
      ({ (r.pushScope parent).2 with global } : Registry).Binds c name v ↔ r.Binds c name v :=
    pushScope_binds
  exact {
    place := fun hs => by
      rcases pushScope_scope?_eq.mp hs with hs | ⟨rfl, rfl⟩
      · exact h.place hs
      · rfl
    parent := fun hs hp => by
      rcases pushScope_scope?_eq.mp hs with hs | ⟨rfl, rfl⟩
      · exact h.parent hs hp
      · obtain ⟨t, ht⟩ := Option.isSome_iff_exists.mp (hparent _ hp)
        exact lt_size_of_scope? ht
    root := fun hs => by
      rcases pushScope_scope?_eq.mp hs with hs | ⟨rfl, rfl⟩
      · exact (h.root hs).trans (hold hs).symm
      · exact hroot
    global := fun hg => by
      rcases hglobal with rfl | ⟨_, rfl⟩
      · obtain ⟨u, hu⟩ := Option.isSome_iff_exists.mp (h.global hg)
        exact Option.isSome_iff_exists.mpr ⟨u, pushScope_scope? hu⟩
      · obtain rfl := Option.some.inj hg
        exact Option.isSome_iff_exists.mpr ⟨_, pushScope_scope?_new r parent⟩
    names := fun hs => by
      rcases pushScope_scope?_eq.mp hs with hs | ⟨rfl, rfl⟩
      · exact h.names hs
      · exact List.nodup_nil
    range := fun hb => h.range (hbinds.mp hb)
    bound := fun hv => by
      obtain ⟨c, name, hb⟩ := h.bound hv
      exact ⟨c, name, hbinds.mpr hb⟩
    once := fun hb hb' => h.once (hbinds.mp hb) (hbinds.mp hb')
    functionNames := h.functionNames
    indexed := h.indexed
    apart := fun hg hb => by
      obtain ⟨s, hs, hv⟩ := hbinds.mp hb
      exact h.apart ((hold hs).mp hg) ⟨s, hs, hv⟩ }

/-- A new scope has a parent before it, and binds nothing. -/
theorem WellFormed.newScope (h : WellFormed r) {parent : ScopeId}
    (hparent : (r.scope? parent).isSome = true) : WellFormed (r.newScope parent).2 := by
  refine h.pushScope ?_ (Or.inl rfl) ⟨fun hnone => (by cases hnone), fun hg => ?_⟩
  · intro p hp
    rw [← Option.some.inj hp]
    exact hparent
  · -- the global scope was there before the new one
    obtain ⟨u, hu⟩ := Option.isSome_iff_exists.mp (h.global hg)
    exact absurd rfl (scope?_ne_new hu)

/-- The global scope is added once, as a root. -/
theorem WellFormed.ensureGlobal (h : WellFormed r) : WellFormed r.ensureGlobal.2 := by
  unfold Registry.ensureGlobal
  cases hg : r.global with
  | some id => exact h
  | none =>
    exact h.pushScope (fun p hp => by cases hp) (Or.inr ⟨hg, rfl⟩) ⟨fun _ => rfl, fun _ => rfl⟩

/-! ### New variables -/

/-- The bindings after binding a name are those before and the new one. -/
theorem bound_binds {c' : ScopeId} {name' : String} {y : Symbol} (hs : r.scope? c = some s) :
    (r.bound c s name y).Binds c' name' v ↔
      r.Binds c' name' v ∨ c' = c ∧ name' = name ∧ v = ⟨r.symbols.size⟩ := by
  unfold Binds
  simp only [bound_scope? hs]
  by_cases hc : c' = c
  · subst hc
    simp only [if_true, hs, Option.some.injEq, exists_eq_left', List.mem_append,
      List.mem_singleton, Prod.mk.injEq, true_and]
  · simp only [hc, if_false, false_and, or_false]

/-- The variables after binding a name are those before and the new one. -/
theorem bound_symbol? {y : Symbol} :
    ((r.bound c s name y).symbol? v).isSome = true ↔
      (r.symbol? v).isSome = true ∨ v = ⟨r.symbols.size⟩ := by
  obtain ⟨k⟩ := v
  simp only [symbol?, Registry.bound, Option.isSome_iff_ne_none, ne_eq, getElem?_eq_none_iff,
    Array.size_push, SymbolId.mk.injEq]
  omega

/-- A name that is free, and not that of a function if the scope is the global one, can
be bound. -/
theorem WellFormed.bind (h : WellFormed r) {y : Symbol} (hs : r.scope? c = some s)
    (hnew : s.get? name = none) (hfunction : r.global = some c → r.findFunction? name = none) :
    WellFormed (r.bound c s name y) := by
  have hscope : ∀ {id : ScopeId} {t : Scope}, (r.bound c s name y).scope? id = some t →
      ∃ u, r.scope? id = some u ∧ t.id = u.id ∧ t.parent = u.parent ∧
        (t = u ∨ id = c ∧ t.bindings = s.bindings ++ [(name, ⟨r.symbols.size⟩)]) := by
    intro id t ht
    rw [bound_scope? hs] at ht
    split at ht
    next hid =>
      subst hid
      obtain rfl := Option.some.inj ht
      exact ⟨s, hs, rfl, rfl, Or.inr ⟨rfl, rfl⟩⟩
    next => exact ⟨t, ht, rfl, rfl, Or.inl rfl⟩
  -- no binding can have the next handle
  have hfresh : ∀ {c' : ScopeId} {name' : String}, ¬r.Binds c' name' ⟨r.symbols.size⟩ := by
    intro c' name' hb
    have hsome := h.range hb
    rw [symbol?, Array.getElem?_size] at hsome
    cases hsome
  exact {
    place := fun ht => by
      obtain ⟨u, hu, hid, _⟩ := hscope ht
      exact hid.trans (h.place hu)
    parent := fun ht hp => by
      obtain ⟨u, hu, _, hparent, _⟩ := hscope ht
      exact h.parent hu (hparent ▸ hp)
    root := fun ht => by
      obtain ⟨u, hu, _, hparent, _⟩ := hscope ht
      rw [hparent]
      exact h.root hu
    global := fun hg => by
      obtain ⟨u, hu⟩ := Option.isSome_iff_exists.mp (h.global hg)
      obtain ⟨_, hu', _⟩ := (bound_grows hs).scope hu
      exact Option.isSome_iff_exists.mpr ⟨_, hu'⟩
    names := fun ht => by
      obtain ⟨u, hu, _, _, rfl | ⟨rfl, hbindings⟩⟩ := hscope ht
      · exact h.names hu
      · rw [hbindings]
        exact nodup_names_append (h.names hs) hnew _
    range := fun hb => by
      rw [bound_symbol?]
      rcases (bound_binds hs).mp hb with hb | ⟨_, _, rfl⟩
      · exact Or.inl (h.range hb)
      · exact Or.inr rfl
    bound := fun hv => by
      rcases bound_symbol?.mp hv with hv | rfl
      · obtain ⟨c', name', hb⟩ := h.bound hv
        exact ⟨c', name', (bound_binds hs).mpr (Or.inl hb)⟩
      · exact ⟨c, name, (bound_binds hs).mpr (Or.inr ⟨rfl, rfl, rfl⟩)⟩
    once := fun hb hb' => by
      rcases (bound_binds hs).mp hb with hold | ⟨rfl, rfl, rfl⟩ <;>
        rcases (bound_binds hs).mp hb' with hold' | ⟨rfl, rfl, hv⟩
      · exact h.once hold hold'
      · exact absurd (hv ▸ hold) hfresh
      · exact absurd hold' hfresh
      · exact ⟨rfl, rfl⟩
    functionNames := h.functionNames
    indexed := h.indexed
    apart := fun hg hb => by
      rcases (bound_binds hs).mp hb with hb | ⟨rfl, rfl, _⟩
      · exact h.apart hg hb
      · exact h.indexed.findFunction?_eq_none.mp (hfunction hg) _ }

/-! ### New functions and parameters -/

theorem globalBinds_ok {b : Bool} (h : r.globalBinds name = .ok b) (hg : r.global = some c) :
    b = true ↔ ∃ v, r.Binds c name v := by
  rw [globalBinds, hg] at h
  dsimp only at h
  split at h
  next => cases h
  next s hs =>
    obtain rfl := Except.ok.inj h
    exact get?_isSome hs

/-- A function may be added if its name is new among the functions and the global variables. -/
theorem WellFormed.declared (h : WellFormed r) {signature : Signature}
    (hglobal : r.globalBinds signature.name = .ok false)
    (hnew : r.findFunction? signature.name = none) : WellFormed (r.declared signature) :=
  { h with
    functionNames := nodup_names_append h.functionNames hnew _
    indexed := h.indexed.declared hnew
    apart := fun hg hb hf => by
      rcases declared_names.mp hf with hf | ⟨_, rfl⟩
      · exact h.apart hg hb hf
      · exact absurd ((globalBinds_ok hglobal hg).mpr ⟨_, hb⟩) (by simp) }

/-- A function may get another entry of the same name. -/
theorem WellFormed.updated (h : WellFormed r) {old signature : Signature}
    (hf : r.function? f = some old) (hname : signature.name = old.name) :
    WellFormed (r.updated f signature) :=
  { h with
    indexed := h.indexed.updated hf hname
    apart := fun hg hb hn => h.apart hg hb ((updated_names hf hname).mp hn) }

/-- Adding a function keeps a registry well-formed, also where it is refused. -/
theorem WellFormed.newFunction (name : String) (returns : BasicType) :
    (Change.newFunction name returns).Maintains WellFormed := by
  refine (Change.newFunction_atomic name returns).maintains fun h hrun => ?_
  obtain ⟨hglobal, hnew, _, rfl⟩ := Change.newFunction_ok.mp hrun
  exact h.declared hglobal hnew

/-- A function may change in everything but its name. -/
theorem WellFormed.updateFunction (f : FunctionId) (update : Signature → Signature)
    (hname : ∀ f, (update f).name = f.name) :
    (Change.updateFunction f update).Maintains WellFormed := by
  refine (Change.updateFunction_atomic f update).maintains fun h hrun => ?_
  obtain ⟨old, hf, rfl⟩ := Change.updateFunction_ok.mp hrun
  exact h.updated hf (hname old)

/-- Binding a name keeps a registry well-formed, also where it is refused. -/
theorem WellFormed.register (c : ScopeId) (name : String) (y : Symbol) :
    (Change.register c name y).Maintains WellFormed := by
  refine (Change.register_atomic c name y).maintains fun h hrun => ?_
  obtain ⟨s, hs, hnew, hfunction, _, rfl⟩ := register_ok.mp (Change.attempt_ok.mpr hrun)
  exact h.bind hs hnew hfunction

/-! ## What every run keeps -/

/-- Every operation that fits keeps a registry well-formed. -/
theorem WellFormed.run (h : WellFormed r) (op : Operation) (hfits : op.fits r = true) :
    WellFormed (op.run r).2 := by
  cases op with
  | ensureGlobal => exact h.ensureGlobal
  | newScope parent => exact h.newScope hfits
  | register c name y => exact (WellFormed.register c name y).bind (fun _ => .pure _) r h
  | newFunction name returns =>
    exact (WellFormed.newFunction name returns).bind (fun _ => .pure _) r h
  | addParameter f p =>
    exact WellFormed.updateFunction f (fun g => { g with parameters := g.parameters ++ [p] })
      (fun _ => rfl) r h
  | addBuiltins =>
    exact Change.Maintains.addBuiltins WellFormed.newFunction WellFormed.updateFunction builtins r h

/-- Whatever can be reached from a well-formed registry is well-formed. -/
theorem Reaches.wellFormed (h : Reaches r r') (hr : WellFormed r) : WellFormed r' := by
  induction h with
  | refl => exact hr
  | step op _ hfits ih => exact ih.run op hfits

/-! ## What follows -/

/-- The scopes around a scope are a stack that ends with the global scope. -/
theorem WellFormed.stack (h : WellFormed r) {id : ScopeId} {s : Scope}
    (hs : r.scope? id = some s) : ∃ frames, Stack r id frames := by
  cases hp : s.parent with
  | none => exact ⟨_, .global ((h.root hs).mp hp) hs hp⟩
  | some p =>
    have hlt := h.parent hs hp
    have hglobal : r.global ≠ some id := fun hg => by
      rw [(h.root hs).mpr hg] at hp
      cases hp
    -- the scope around is an earlier entry, so it is there
    have hpsize : p.index < r.scopes.size := Nat.lt_trans hlt (lt_size_of_scope? hs)
    have hparent : r.scope? p = some (r.scopes[p.index]) := Array.getElem?_eq_getElem hpsize
    obtain ⟨frames, hframes⟩ := h.stack hparent
    exact ⟨_, .inner hglobal hs hp hlt hframes⟩
termination_by id.index

/-- Every function is found under one name, the one that it has. -/
theorem Indexed.existsUnique_name (h : r.Indexed) (hf : (r.function? f).isSome = true) :
    ∃! name, r.findFunction? name = some f := by
  obtain ⟨signature, hsignature⟩ := Option.isSome_iff_exists.mp hf
  refine ⟨signature.name, (h signature.name f).mpr ⟨signature, hsignature, rfl⟩, ?_⟩
  intro name hname
  obtain ⟨other, hother, rfl⟩ := (h name f).mp hname
  rw [Option.some.inj (hother.symm.trans hsignature)]

/-- A variable is refused for its name alone. -/
theorem Indexed.register_error_iff (h : r.Indexed) {y : Symbol} {refusal : Refusal}
    (hc : (r.scope? c).isSome = true) :
    r.register c name y = .error refusal ↔
      refusal = .cause (.duplicate name) ∧
        ((∃ v, r.Binds c name v) ∨ r.global = some c ∧ ∃ f, r.Names f name) := by
  obtain ⟨s, hs⟩ := Option.isSome_iff_exists.mp hc
  rw [register_eq, ← get?_isSome hs, ← h.findFunction?_isSome, hs, @eq_comm _ refusal]
  dsimp only
  by_cases hfunction : r.global = some c ∧ (r.findFunction? name).isSome = true
  · rw [if_pos hfunction]
    simp [hfunction]
  · rw [if_neg hfunction]
    by_cases hget : (s.get? name).isSome = true <;> simp [hfunction, hget]

/-- The global scope is there if it is named at all, so it can be asked for a name. -/
theorem WellFormed.globalBinds (h : WellFormed r) (name : String) :
    ∃ b, r.globalBinds name = .ok b ∧
      (b = true ↔ ∃ c v, r.global = some c ∧ r.Binds c name v) := by
  cases hg : r.global with
  | none => exact ⟨false, by rw [Registry.globalBinds, hg], by simp⟩
  | some c =>
    obtain ⟨s, hs⟩ := Option.isSome_iff_exists.mp (h.global hg)
    refine ⟨(s.get? name).isSome, ?_, by rw [get?_isSome hs]; simp⟩
    rw [Registry.globalBinds, hg]
    simp only [hs]

/-- A function is refused for its name alone. -/
theorem WellFormed.newFunction_error_iff (h : WellFormed r) {returns : BasicType}
    {refusal : Refusal} :
    r.newFunction name returns = .error refusal ↔
      refusal = .cause (.duplicate name) ∧
        ((∃ f, r.Names f name) ∨ ∃ c v, r.global = some c ∧ r.Binds c name v) := by
  obtain ⟨b, hb, hbinds⟩ := h.globalBinds name
  rw [newFunction_eq, ← h.indexed.findFunction?_isSome, ← hbinds, hb, @eq_comm _ refusal]
  dsimp only [Except.bind]
  cases b <;> cases (r.findFunction? name).isSome <;> simp

/-- **The registry over any run.** In every registry that is reached from the empty one:

* a scope's handle is its place, and the scope around it has a smaller handle;
* from every scope a stack of scopes leads out to the global one, and looking up a name
  finds the binding of the innermost scope of the stack that has one;
* every variable is bound at exactly one place, every binding is to a variable that is
  there, and is found under its name in its scope;
* no name of a function is entered twice, a name is entered for a function exactly if the
  function has that name, and every function is entered under exactly one;
* only the global scope has none around it, and none of its variables is named as a function;
* an operation that is refused has written nothing, the built-in functions apart, which are
  added one by one; variables and functions are refused exactly if their name is taken. -/
theorem reached_consistent (h : Reaches {} r) :
    (∀ id s, r.scope? id = some s → s.id = id ∧ ∀ p, s.parent = some p → p.index < id.index) ∧
    (∀ id, (r.scope? id).isSome = true → ∃ frames, Stack r id frames ∧ ∀ name,
      r.lookup id name = match search frames name with
        | some v => .ok v
        | none => .error (.cause (.undeclaredVariable name))) ∧
    (∀ v, (r.symbol? v).isSome = true → ∃! x : ScopeId × String, r.Binds x.1 x.2 v) ∧
    (∀ c name v, r.Binds c name v → (r.symbol? v).isSome = true ∧
      ∀ s, r.scope? c = some s → s.get? name = some v) ∧
    (r.functionNames.map Prod.fst).Nodup ∧
    (∀ name f, r.findFunction? name = some f ↔ r.Names f name) ∧
    (∀ f, (r.function? f).isSome = true → ∃! name, r.findFunction? name = some f) ∧
    (∀ id s, r.scope? id = some s → (s.parent = none ↔ r.global = some id)) ∧
    (∀ c name v f, r.global = some c → r.Binds c name v → ¬r.Names f name) ∧
    (∀ (op : Operation) (refusal : Refusal), op ≠ .addBuiltins →
      (op.run r).1 = .error refusal → (op.run r).2 = r) ∧
    (∀ c name y refusal, (r.scope? c).isSome = true →
      (r.register c name y = .error refusal ↔ refusal = .cause (.duplicate name) ∧
        ((∃ v, r.Binds c name v) ∨ r.global = some c ∧ ∃ f, r.Names f name))) ∧
    (∀ name returns refusal,
      r.newFunction name returns = .error refusal ↔ refusal = .cause (.duplicate name) ∧
        ((∃ f, r.Names f name) ∨ ∃ c v, r.global = some c ∧ r.Binds c name v)) := by
  have hr := h.wellFormed wellFormed_empty
  refine ⟨fun _ _ hs => ⟨hr.place hs, fun _ hp => hr.parent hs hp⟩, ?_, ?_, ?_,
    hr.functionNames, hr.indexed, fun _ hf => hr.indexed.existsUnique_name hf,
    fun _ _ hs => hr.root hs, fun _ _ _ _ hg hb => hr.apart hg hb,
    fun _ _ hop hrefused => (Operation.change_atomic hop).outcome hrefused,
    fun _ _ _ _ hc => hr.indexed.register_error_iff hc, fun _ _ _ => hr.newFunction_error_iff⟩
  · intro id hid
    obtain ⟨s, hs⟩ := Option.isSome_iff_exists.mp hid
    obtain ⟨frames, hframes⟩ := hr.stack hs
    exact ⟨frames, hframes, fun name => hframes.lookup name⟩
  · intro v hv
    obtain ⟨c, name, hb⟩ := hr.bound hv
    refine ⟨(c, name), hb, ?_⟩
    rintro ⟨c', name'⟩ hb'
    obtain ⟨rfl, rfl⟩ := hr.once hb hb'
    rfl
  · intro c name v hb
    refine ⟨hr.range hb, fun s hs => ?_⟩
    obtain ⟨t, ht, hv⟩ := hb
    obtain rfl : s = t := Option.some.inj (hs.symm.trans ht)
    exact (get?_eq_some (hr.names hs)).mpr hv

/-- A run in which a function comes before the global scope, a name is shadowed, a variable
and a function are refused, and so is one of the built-in functions. -/
def mixedRun : List Operation :=
  [.newFunction "f" .int32, .ensureGlobal, .newScope ⟨0⟩,
    .register ⟨0⟩ "x" (.ofVariable "x" (.scalar .int32)),
    .register ⟨1⟩ "x" (.ofConstant "x" (.scalar .bool)),
    .register ⟨0⟩ "f" (.ofVariable "f" (.scalar .int32)),
    .newFunction "x" .void, .newFunction "get_float" .float,
    .addParameter ⟨0⟩ ⟨"a", .scalar .int32⟩, .addBuiltins]

theorem reached_consistent_mixedRun :
    ∃ r, Operation.runAll mixedRun {} = some r ∧
      (r.scopes.size = 2 ∧ r.symbols.size = 2 ∧ r.functions.size = 7 ∧ r.lookup ⟨1⟩ "f" =
        .error (.cause (.undeclaredVariable "f")) ∧ r.lookup ⟨1⟩ "x" = .ok ⟨1⟩) ∧
      (∃ frames, Stack r ⟨1⟩ frames) ∧
      (∃! x : ScopeId × String, r.Binds x.1 x.2 ⟨1⟩) ∧
      (∃! name, r.findFunction? name = some ⟨1⟩) ∧
      ¬r.Names ⟨0⟩ "x" := by
  obtain ⟨r, hr⟩ : ∃ r, Operation.runAll mixedRun {} = some r :=
    Option.isSome_iff_exists.mp (by decide +kernel)
  have hfacts : (Operation.runAll mixedRun {}).all (fun r => decide
      (r.scopes.size = 2 ∧ r.symbols.size = 2 ∧ r.functions.size = 7 ∧ r.lookup ⟨1⟩ "f" =
        .error (.cause (.undeclaredVariable "f")) ∧ r.lookup ⟨1⟩ "x" = .ok ⟨1⟩)) = true := by
    decide +kernel
  have hentries : (Operation.runAll mixedRun {}).all (fun r => decide
      ((r.scope? ⟨1⟩).isSome = true ∧ (r.symbol? ⟨1⟩).isSome = true ∧
        (r.function? ⟨1⟩).isSome = true ∧ r.global = some ⟨0⟩ ∧
        ∃ s, r.scope? ⟨0⟩ = some s ∧ ("x", ⟨0⟩) ∈ s.bindings)) = true := by
    decide +kernel
  rw [hr] at hfacts hentries
  obtain ⟨hscope, hsymbol, hfunction, hglobal, s, hs, hx⟩ := of_decide_eq_true hentries
  obtain ⟨_, hlookup, hbound, _, _, _, hnamed, _, hapart, _⟩ :=
    reached_consistent (reaches_of_runAll hr)
  obtain ⟨frames, hframes, _⟩ := hlookup ⟨1⟩ hscope
  exact ⟨r, hr, of_decide_eq_true hfacts, ⟨frames, hframes⟩, hbound ⟨1⟩ hsymbol,
    hnamed ⟨1⟩ hfunction, hapart ⟨0⟩ "x" ⟨0⟩ ⟨0⟩ hglobal ⟨s, hs, hx⟩⟩

end CactLang.Registry
