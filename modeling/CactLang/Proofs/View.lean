import CactLang.Proofs.Rules
import CactLang.Proofs.ScopeStack

/-!
# The registry as an environment

The typing rules speak of a stack of frames and a table of functions. A registry is
such a table (`table r`), and seen from one of its scopes such a stack.

> `Sees r c Γ`: from the scope `c`, the variables of the registry `r` are those of the
> environment `Γ`, and functions are found under their names.

Names stand for the same variables and functions on both sides, a name is free on
one side just when it is on the other, and every step of checking moves the two
together.
-/

namespace CactLang.Rules

open Registry (Stack Grows Mirrors Indexed)

variable {r r' : Registry} {c : ScopeId} {Γ : Env} {name : String}

/-! ## Functions -/

/-- What the rules know of a signature. -/
def prototype (f : Signature) : Prototype :=
  ⟨f.returns, f.parameters.map (·.ty)⟩

/-- The functions of a registry, as a table. -/
def table (r : Registry) : Table :=
  r.functions.toList.map fun f => (f.name, prototype f)

theorem table_congr (h : r'.functions = r.functions) : table r' = table r := by
  rw [table, table, h]

theorem lookup_prototypes (fs : List Signature) (name : String) :
    (fs.map fun f => (f.name, prototype f)).lookup name =
      (fs.find? (·.name == name)).map prototype := by
  induction fs with
  | nil => rfl
  | cons f fs ih =>
    rw [List.map_cons, List.lookup_cons, List.find?_cons]
    by_cases h : f.name = name
    · rw [h, beq_self_eq_true]
      rfl
    · rw [beq_eq_false_iff_ne.mpr h, beq_eq_false_iff_ne.mpr (Ne.symm h)]
      exact ih

/-- A name is in the table just when the registry finds a function of that name. -/
theorem table_lookup (hr : r.Indexed) {f : Prototype} :
    (table r).lookup name = some f ↔
      ∃ id signature, r.findFunction? name = some id ∧ r.function? id = some signature ∧
        f = prototype signature := by
  rw [table, lookup_prototypes, Array.find?_toList, Option.map_eq_some_iff]
  constructor
  · intro h
    obtain ⟨signature, hfind, rfl⟩ := h
    obtain ⟨hname, k, hk, hget, _⟩ := Array.find?_eq_some_iff_getElem.mp hfind
    have hfunction : r.function? ⟨k⟩ = some signature :=
      Array.getElem?_eq_some_iff.mpr ⟨hk, hget⟩
    exact ⟨⟨k⟩, signature, (hr name ⟨k⟩).mpr ⟨signature, hfunction, eq_of_beq hname⟩,
      hfunction, rfl⟩
  · intro h
    obtain ⟨id, signature, hid, hsignature, rfl⟩ := h
    obtain ⟨_, hsame, hname⟩ := (hr name id).mp hid
    obtain rfl := Option.some.inj (hsignature.symm.trans hsame)
    have hmem := Array.mem_of_getElem? hsignature
    cases hfind : r.functions.find? (·.name == name) with
    | none =>
      have hnot := Array.find?_eq_none.mp hfind signature hmem
      exact absurd (beq_iff_eq.mpr hname) hnot
    | some first =>
      -- the first function of that name is entered under it, so it is the one that is found
      obtain ⟨hfirst, k, hk, hget, _⟩ := Array.find?_eq_some_iff_getElem.mp hfind
      have hfunction : r.function? ⟨k⟩ = some first := Array.getElem?_eq_some_iff.mpr ⟨hk, hget⟩
      have hfound := (hr name ⟨k⟩).mpr ⟨first, hfunction, eq_of_beq hfirst⟩
      obtain rfl : id = ⟨k⟩ := Option.some.inj (hid.symm.trans hfound)
      exact ⟨signature, hfunction.symm.trans hsignature, rfl⟩

theorem table_lookup_none (hr : r.Indexed) :
    (table r).lookup name = none ↔ r.findFunction? name = none := by
  rw [Option.eq_none_iff_forall_ne_some, Option.eq_none_iff_forall_ne_some]
  constructor
  · intro h id hid
    obtain ⟨signature, hsignature, _⟩ := (hr name id).mp hid
    exact h _ ((table_lookup hr).mpr ⟨id, signature, hid, hsignature, rfl⟩)
  · intro h f hf
    obtain ⟨id, _, hid, _⟩ := (table_lookup hr).mp hf
    exact h id hid

theorem table_declared (r : Registry) (f : Signature) :
    table (r.declared f) = table r ++ [(f.name, prototype f)] := by
  simp [table, Registry.declared, Registry.withFunctions]

/-! ## Variables -/

/-- A variable of the registry and the one the rules know for it. -/
def Stands (r : Registry) (v : SymbolId) (x : Variable) : Prop :=
  ∃ y, r.symbol? v = some y ∧ x = ⟨y.ty, y.isConstant⟩

/-- From a scope, a registry is as the rules see it. -/
structure Sees (r : Registry) (c : ScopeId) (Γ : Env) : Prop where
  /-- The variables are those of the environment. -/
  scopes : Mirrors (Stands r) r c Γ
  /-- Functions are found under their names. -/
  functions : r.Indexed

theorem Stands.mono {v : SymbolId} {x : Variable}
    (hsymbol : ∀ {id : SymbolId} {y : Symbol}, r.symbol? id = some y → r'.symbol? id = some y)
    (h : Stands r v x) : Stands r' v x := by
  obtain ⟨y, hy, hx⟩ := h
  exact ⟨y, hsymbol hy, hx⟩

namespace Sees

/-- A name stands for the same variable on both sides. -/
theorem lookup (h : Sees r c Γ) {x : Variable} :
    Γ.variable? name = some x ↔
      ∃ v y, r.lookup c name = .ok v ∧ r.symbol? v = some y ∧ x = ⟨y.ty, y.isConstant⟩ := by
  constructor
  · intro hx
    rcases h.scopes.lookup name with ⟨v, x', hv, hx', y, hy, rfl⟩ | ⟨_, hnone⟩
    · obtain rfl := Option.some.inj (hx.symm.trans hx')
      exact ⟨v, y, hv, hy, rfl⟩
    · exact absurd (hx.symm.trans hnone) (by simp)
  · intro hv
    obtain ⟨v, y, hv, hy, rfl⟩ := hv
    obtain ⟨x, hx, y', hy', rfl⟩ := h.scopes.of_lookup hv
    obtain rfl : y = y' := Option.some.inj (hy.symm.trans hy')
    exact hx

/-- A name can be bound just when it is free. -/
theorem register (h : Sees r c Γ) (y : Symbol) :
    (∃ v r', r.register c name y = .ok (v, r')) ↔ Γ.Free (table r) name := by
  obtain ⟨s, g, outer, hs, rfl, hget, hglobal⟩ := h.scopes.top
  simp only [Registry.register_ok]
  -- only the outermost frame shares its names with the functions
  cases outer with
  | nil =>
    rw [Env.Free, ← hget, table_lookup_none h.functions]
    constructor
    · intro hreg
      obtain ⟨_, _, s', hs', hn, hfn, _⟩ := hreg
      obtain rfl : s = s' := Option.some.inj (hs.symm.trans hs')
      exact ⟨hn, hfn (hglobal.mpr rfl)⟩
    · intro hfree
      exact ⟨_, _, s, hs, hfree.1, fun _ => hfree.2, rfl, rfl⟩
  | cons g' outer =>
    rw [Env.Free, ← hget]
    constructor
    · intro hreg
      obtain ⟨_, _, s', hs', hn, _⟩ := hreg
      obtain rfl : s = s' := Option.some.inj (hs.symm.trans hs')
      exact hn
    · intro hfree
      exact ⟨_, _, s, hs, hfree, fun hg => absurd (hglobal.mp hg) (by simp), rfl, rfl⟩

/-- Where only scopes further inside gain bindings, the view stays. -/
theorem grow {i : Option ScopeId} (h : Sees r c Γ) (hg : Grows i r r')
    (hi : ∀ j, i = some j → c.index < j.index) : Sees r' c Γ :=
  ⟨(h.scopes.grow hg hi).imp (Stands.mono hg.symbol), hg.indexed h.functions⟩

/-- Binding a name adds the variable to the innermost frame. -/
theorem add (h : Sees r c Γ) {y : Symbol} {v : SymbolId}
    (hreg : r.register c name y = .ok (v, r')) :
    Sees r' c (Γ.add name ⟨y.ty, y.isConstant⟩) := by
  obtain ⟨s, hs, _, _, _, rfl⟩ := Registry.register_ok.mp hreg
  obtain ⟨_, g, outer, _, rfl, _, _⟩ := h.scopes.top
  -- the values are related in the new registry, in which the variable is there
  have hnew : Mirrors (Stands (r.bound c s name y)) r c (g :: outer) :=
    h.scopes.imp (Stands.mono (Registry.bound_grows hs).symbol)
  exact ⟨hnew.bind hs name y ⟨y, Registry.bound_symbol?_new, rfl⟩, h.functions.congr rfl rfl⟩

/-- A new scope is one more frame. -/
theorem push (h : Sees r c Γ) : Sees (r.newScope c).2 ⟨r.scopes.size⟩ ([] :: Γ) :=
  ⟨h.scopes.push.imp (Stands.mono (Registry.pushScope_grows r (some c)).symbol),
    h.functions.congr rfl rfl⟩

theorem declared (h : Sees r c Γ) {f : Signature} (hname : r.findFunction? f.name = none) :
    Sees (r.declared f) c Γ :=
  ⟨h.scopes.withFunctions _ _, h.functions.declared hname⟩

theorem updated (h : Sees r c Γ) {id : FunctionId} {f old : Signature}
    (hold : r.function? id = some old) (hname : f.name = old.name) : Sees (r.updated id f) c Γ :=
  ⟨h.scopes.withFunctions _ _, h.functions.updated hold hname⟩

/-- In the global scope there is one frame. -/
theorem outermost (h : Sees r c Γ) (hg : r.global = some c) : ∃ g, Γ = [g] := by
  obtain ⟨_, g, outer, _, rfl, _, hglobal⟩ := h.scopes.top
  exact ⟨g, by rw [hglobal.mp hg]⟩

/-- The global scope binds the names of the outermost frame. -/
theorem globalBinds {g : Frame} (h : Sees r c [g]) (name : String) :
    r.globalBinds name = .ok (g.lookup name).isSome := by
  obtain ⟨s, g', outer, hs, heq, hget, hglobal⟩ := h.scopes.top
  obtain ⟨rfl, rfl⟩ := List.cons.inj heq
  rw [Registry.globalBinds, hglobal.mpr rfl]
  simp only [hs]
  have hsome : (s.get? name).isSome = (g.lookup name).isSome := by
    rw [Bool.eq_iff_iff, Option.isSome_iff_ne_none, Option.isSome_iff_ne_none]
    exact not_congr (hget name)
  rw [hsome]

end Sees

/-! ## The start -/

open Typing (start)

theorem table_start (withBuiltins : Bool) :
    table (start withBuiltins).registry = if withBuiltins then builtins else [] := by
  cases withBuiltins <;> decide +kernel

theorem sees_start (withBuiltins : Bool) :
    Sees (start withBuiltins).registry (start withBuiltins).context.scope [[]] :=
  ⟨Registry.mirrors_start withBuiltins, Typing.start_indexed withBuiltins⟩

end CactLang.Rules
