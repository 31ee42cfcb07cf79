import CactLang.Proofs.Accepted.Expression
import CactLang.Proofs.Composition
import CactLang.Proofs.RegistryChanges

/-!
# What checking does to the registry

Checking a statement adds scopes and variables and changes nothing that was there
before; checking declarations also adds bindings to the scope they stand in, and
to no other. This holds whether the check passes or fails. In both cases the
context is back to what it was, because every part that enters a scope, a function
or a loop leaves it again.

> `Grows c r r'`: `r'` is `r` with scopes and variables added, and bindings added to
> the scope `c`, if there is one.

`Keeps` says this of a check, from any state. It is closed under the ways checks
are put together (`keeps_composes`), so it holds of every statement and every block.
-/

namespace CactLang

namespace Registry

/-! ## Growth -/

/-- Everything in `r` stays in `r'` under its handle; only the scope `c` may have
gained bindings, at the end. -/
structure Grows (c : Option ScopeId) (r r' : Registry) : Prop where
  global : r'.global = r.global
  functions : r'.functions = r.functions
  functionNames : r'.functionNames = r.functionNames
  symbol : ∀ {id : SymbolId} {y : Symbol}, r.symbol? id = some y → r'.symbol? id = some y
  scope : ∀ {id : ScopeId} {s : Scope}, r.scope? id = some s →
    ∃ bs, r'.scope? id = some { s with bindings := s.bindings ++ bs } ∧ (c ≠ some id → bs = [])

theorem Grows.refl (c : Option ScopeId) (r : Registry) : Grows c r r :=
  ⟨rfl, rfl, rfl, fun h => h, fun {_ s} h => ⟨[], by rw [List.append_nil]; exact h, fun _ => rfl⟩⟩

/-- Growth goes on from where it has come. -/
theorem Grows.trans {c : Option ScopeId} {r₁ r₂ r₃ : Registry} (h₁ : Grows c r₁ r₂)
    (h₂ : Grows c r₂ r₃) : Grows c r₁ r₃ := by
  refine ⟨h₂.global.trans h₁.global, h₂.functions.trans h₁.functions,
    h₂.functionNames.trans h₁.functionNames, fun h => h₂.symbol (h₁.symbol h), ?_⟩
  intro id s hs
  obtain ⟨bs₁, hs₁, hn₁⟩ := h₁.scope hs
  obtain ⟨bs₂, hs₂, hn₂⟩ := h₂.scope hs₁
  refine ⟨bs₁ ++ bs₂, by rw [← List.append_assoc]; exact hs₂, fun hne => ?_⟩
  rw [hn₁ hne, hn₂ hne, List.append_nil]

/-- Where no scope gains bindings, in particular `c` alone may. -/
theorem Grows.weaken {c : Option ScopeId} {r r' : Registry} (h : Grows none r r') :
    Grows c r r' := by
  refine ⟨h.global, h.functions, h.functionNames, h.symbol, ?_⟩
  intro id s hs
  obtain ⟨bs, hs', hn⟩ := h.scope hs
  exact ⟨bs, hs', fun _ => hn (by simp)⟩

/-- A scope that gains nothing is as it was. -/
theorem Grows.scope_eq {c : Option ScopeId} {r r' : Registry} (h : Grows c r r') {id : ScopeId}
    {s : Scope} (hne : c ≠ some id) (hs : r.scope? id = some s) : r'.scope? id = some s := by
  obtain ⟨bs, hs', hn⟩ := h.scope hs
  rw [hn hne, List.append_nil] at hs'
  exact hs'

/-- Names stand for the same functions. -/
theorem Grows.findFunction? {c : Option ScopeId} {r r' : Registry} (h : Grows c r r')
    (name : String) : r'.findFunction? name = r.findFunction? name := by
  unfold Registry.findFunction?
  rw [h.functionNames]

/-- Growth leaves functions alone. -/
theorem Grows.function {c : Option ScopeId} {r r' : Registry} (h : Grows c r r')
    (id : FunctionId) : r'.function? id = r.function? id := by
  unfold Registry.function?
  rw [h.functions]

/-- Every entry is still there, variables and functions unchanged. -/
structure Below (r r' : Registry) : Prop where
  symbol : ∀ {v : SymbolId} {y : Symbol}, r.symbol? v = some y → r'.symbol? v = some y
  function : ∀ {f : FunctionId} {signature : Signature}, r.function? f = some signature →
    r'.function? f = some signature
  scope : ∀ {c : ScopeId}, (r.scope? c).isSome = true → (r'.scope? c).isSome = true

theorem Below.refl (r : Registry) : r.Below r :=
  ⟨fun h => h, fun h => h, fun h => h⟩

theorem Below.trans {r₁ r₂ r₃ : Registry} (h₁ : r₁.Below r₂) (h₂ : r₂.Below r₃) :
    r₁.Below r₃ :=
  ⟨fun h => h₂.symbol (h₁.symbol h), fun h => h₂.function (h₁.function h),
    fun h => h₂.scope (h₁.scope h)⟩

/-- What grows keeps all its entries. -/
theorem Grows.below {c : Option ScopeId} {r r' : Registry} (h : Grows c r r') : r.Below r' := by
  refine ⟨h.symbol, fun hf => by rw [h.function]; exact hf, ?_⟩
  intro id hid
  obtain ⟨s, hs⟩ := Option.isSome_iff_exists.mp hid
  obtain ⟨_, hs', _⟩ := h.scope hs
  rw [hs']
  rfl

/-! ## What the operations add -/

/-- An entry stays where it is when another one is added at the end. -/
theorem getElem?_push_of_some {α : Type} {xs : Array α} {k : Nat} {x y : α}
    (h : xs[k]? = some x) : (xs.push y)[k]? = some x := by
  have hlt := (Array.getElem?_eq_some_iff.mp h).1
  rw [Array.getElem?_push, if_neg (Nat.ne_of_lt hlt)]
  exact h

theorem lt_size_of_scope? {r : Registry} {id : ScopeId} {s : Scope} (h : r.scope? id = some s) :
    id.index < r.scopes.size :=
  (Array.getElem?_eq_some_iff.mp h).1

/-- A new scope leaves the others where they are. -/
theorem pushScope_scope? {r : Registry} {parent : Option ScopeId} {id : ScopeId} {s : Scope}
    (h : r.scope? id = some s) : (r.pushScope parent).2.scope? id = some s :=
  getElem?_push_of_some h

/-- The next handle is not that of a scope. -/
theorem scope?_ne_new {r : Registry} {id : ScopeId} {s : Scope} (h : r.scope? id = some s) :
    some (⟨r.scopes.size⟩ : ScopeId) ≠ some id := by
  have hlt := lt_size_of_scope? h
  intro he
  rw [← Option.some.inj he] at hlt
  exact Nat.lt_irrefl _ hlt

/-- A new scope is under the next handle, with nothing bound in it. -/
theorem pushScope_scope?_new (r : Registry) (parent : Option ScopeId) :
    (r.pushScope parent).2.scope? ⟨r.scopes.size⟩
      = some { id := ⟨r.scopes.size⟩, parent } :=
  Array.getElem?_push_size

/-- A new scope binds nothing in the others. -/
theorem pushScope_grows (r : Registry) (parent : Option ScopeId) :
    Grows none r (r.pushScope parent).2 := by
  refine ⟨rfl, rfl, rfl, fun h => h, ?_⟩
  intro id s hs
  exact ⟨[], by rw [List.append_nil]; exact pushScope_scope? hs, fun _ => rfl⟩

theorem bound_symbol?_new {r : Registry} {c : ScopeId} {s : Scope} {name : String} {y : Symbol} :
    (r.bound c s name y).symbol? ⟨r.symbols.size⟩ = some y :=
  Array.getElem?_push_size

/-- Binding a name changes one scope. -/
theorem bound_scope? {r : Registry} {c : ScopeId} {s : Scope} {name : String} {y : Symbol}
    (hs : r.scope? c = some s) (id : ScopeId) :
    (r.bound c s name y).scope? id =
      if id = c then some { s with bindings := s.bindings ++ [(name, ⟨r.symbols.size⟩)] }
      else r.scope? id := by
  show (r.scopes.setIfInBounds c.index _)[id.index]? = _
  rw [Array.getElem?_setIfInBounds]
  by_cases hid : id = c
  · rw [if_pos (by rw [hid]), if_pos (lt_size_of_scope? hs), if_pos hid]
  · rw [if_neg hid, if_neg]
    · rfl
    · intro hix
      exact hid (by cases id; cases c; simp_all)

/-- Binding a name grows the registry in its scope. -/
theorem bound_grows {r : Registry} {c : ScopeId} {s : Scope} {name : String} {y : Symbol}
    (hs : r.scope? c = some s) : Grows (some c) r (r.bound c s name y) := by
  refine ⟨rfl, rfl, rfl, getElem?_push_of_some, ?_⟩
  intro id z hz
  rw [bound_scope? hs]
  by_cases hid : id = c
  · subst hid
    obtain rfl : s = z := Option.some.inj (hs.symm.trans hz)
    exact ⟨_, if_pos rfl, fun hne => absurd rfl hne⟩
  · rw [if_neg hid]
    exact ⟨[], by rw [List.append_nil]; exact hz, fun _ => rfl⟩

/-- Growth that adds no function keeps names and functions in step. -/
theorem Grows.indexed {c : Option ScopeId} {r r' : Registry} (hg : Grows c r r')
    (h : r.Indexed) : r'.Indexed :=
  h.congr hg.functions hg.functionNames

end Registry

namespace Typing

open Registry (Grows)

/-! ## Checks that keep what was there -/

variable {α β : Type}

/-- From any state, the check brings the context back and the registry only grows,
with new bindings in the scope that `gains` picks, given the current one. -/
def Keeps (gains : ScopeId → Option ScopeId) (m : Check α) : Prop :=
  ∀ s, (m.after s).context = s.context ∧
    Grows (gains s.context.scope) s.registry (m.after s).registry

/-- No scope gains bindings. -/
def nowhere (_ : ScopeId) : Option ScopeId :=
  none

variable {gains : ScopeId → Option ScopeId}

namespace Keeps

/-- A check that passes keeps the context and grows the registry. -/
theorem ok {m : Check α} (hm : Keeps gains m) {s s' : State} {a : α} (h : m s = .ok a s') :
    s'.context = s.context ∧ Grows (gains s.context.scope) s.registry s'.registry := by
  have hs := hm s
  rw [Check.after, h] at hs
  exact hs

theorem of_reads {m : Check α} (hm : Reads m) : Keeps gains m := by
  intro s
  rw [hm s]
  exact ⟨rfl, Grows.refl _ s.registry⟩

/-- A declaration keeps the context, so only the growth is left to show. -/
theorem declare {f : Registry → Context → Except Failure (α × Registry)}
    (hf : ∀ {r context a r'}, f r context = .ok (a, r') → Grows (gains context.scope) r r') :
    Keeps gains (Check.declare f) := by
  intro s
  unfold Check.after Check.declare
  cases h : f s.registry s.context with
  | error e => exact ⟨rfl, Grows.refl _ s.registry⟩
  | ok p => exact ⟨rfl, hf h⟩

/-- Two checks in a row grow the registry where both of them may. -/
theorem bind {x : Check α} {f : α → Check β} (hx : Keeps gains x) (hf : ∀ a, Keeps gains (f a)) :
    Keeps gains (x >>= f) := by
  intro s
  have hs := hx s
  rw [Check.after_bind]
  cases hxs : x s with
  | error e s₁ =>
    rw [Check.after_of_error hxs] at hs
    exact hs
  | ok a s₁ =>
    rw [Check.after_of_ok hxs] at hs
    obtain ⟨hc, hg⟩ := hs
    obtain ⟨hc', hg'⟩ := hf a s₁
    rw [hc] at hc' hg'
    exact ⟨hc', hg.trans hg'⟩

/-- A check that binds nothing may stand where bindings are allowed. -/
theorem weaken {m : Check α} (hm : Keeps nowhere m) : Keeps gains m :=
  fun s => ⟨(hm s).1, (hm s).2.weaken⟩

/-- A part in a changed context keeps what it keeps, if the context is undone and
the part is in the same scope. -/
theorem within {enter : Context → Context} {leave : Context → Context → Context}
    {part : Check α} (henter : ∀ c, (enter c).scope = c.scope)
    (hleave : ∀ c, leave c (enter c) = c) (hpart : Keeps gains part) :
    Keeps gains (Check.within enter leave part) := by
  intro s
  have hs := hpart ⟨s.registry, enter s.context⟩
  rw [henter] at hs
  rw [Check.after_within]
  exact ⟨by rw [hs.1]; exact hleave s.context, hs.2⟩

theorem inLoop {loop : NodeId} {part : Check α} (hpart : Keeps gains part) :
    Keeps gains (Check.inLoop loop part) :=
  within (fun _ => rfl) (fun _ => rfl) hpart

/-- The bindings of a part go into its own new scope, so none of the scopes around
gains any. -/
theorem inScope {part : Check α} (hpart : Keeps some part) :
    Keeps nowhere (Check.inScope part) := by
  intro s
  have hs := hpart s.inScope
  have hp := Registry.pushScope_grows s.registry (some s.context.scope)
  rw [Check.after_inScope]
  refine ⟨by rw [hs.1]; rfl, hs.2.global.trans hp.global, hs.2.functions.trans hp.functions,
    hs.2.functionNames.trans hp.functionNames, fun h => hs.2.symbol (hp.symbol h), ?_⟩
  intro id c hc
  refine ⟨[], ?_, fun _ => rfl⟩
  rw [List.append_nil]
  -- the part binds in its own scope, and an old scope is not the new one
  exact hs.2.scope_eq (Registry.scope?_ne_new hc) (Registry.pushScope_scope? hc)

end Keeps

/-! ## Statements and declarations -/

/-- Binding a name grows the current scope. -/
theorem bindName_keeps (id : NodeId) (span : Span) (name : String) (y : Symbol) :
    Keeps some (bindName id span name y) := by
  refine Keeps.declare ?_
  intro r context v r' h
  rw [locateRefusal_ok, Registry.register_ok] at h
  obtain ⟨s, hs, _, _, _, rfl⟩ := h
  exact Registry.bound_grows hs

/-- Statements bind nothing around them, and the items of a block bind in its scope. -/
theorem keeps_composes :
    Composes (fun _ m => Keeps nowhere m) (fun _ m => Keeps some m) where
  reads := Keeps.of_reads
  bind := Keeps.bind
  weaken := Keeps.weaken
  bindItem := Keeps.bind
  bindName := bindName_keeps
  inLoop _ := Keeps.inLoop
  inScope := Keeps.inScope

/-- A definition grows the current scope. -/
theorem varDef_keeps (isConstant : Bool) (basic : BasicType) (d : VarDef) :
    Keeps some (varDef isConstant basic d) :=
  keeps_composes.varDef isConstant basic d

theorem varDefs_keeps (isConstant : Bool) (basic : BasicType) (ds : List VarDef) :
    Keeps some (varDefs isConstant basic ds) :=
  keeps_composes.varDefs isConstant basic ds

theorem decl_keeps (d : Decl) : Keeps some (decl d) :=
  keeps_composes.decl d

/-- A statement grows no scope that was there. -/
theorem stmt_keeps (t : Stmt) : Keeps nowhere (stmt t) :=
  keeps_composes.stmt t

theorem block_keeps (b : Block) : Keeps nowhere (block b) :=
  keeps_composes.block b

/-- The items of a block grow the scope of the block. -/
theorem blockItems_keeps (items : List BlockItem) : Keeps some (blockItems items) :=
  keeps_composes.blockItems items

end Typing

end CactLang
