import CactLang.Proofs.Accepted.Statement

/-!
# Scopes as a stack

The registry keeps every scope for good and a lookup follows parents. Seen from the
current scope it is a stack all the same: the bindings of the scope itself, then
those of its parent, and so on out to the global scope.

> `Stack r id frames`: from the scope `id` outwards, the bindings are `frames`.

Lookup is a search through the stack (`Stack.lookup`), and checking moves it the way
blocks do: a new scope pushes an empty frame (`Stack.push`), a declaration adds to the
top frame (`Stack.bind`), and a statement leaves the stack as it was, because it binds
nothing in a scope that was there before (`Stack.grow`).
-/

namespace CactLang.Registry

/-- The names a scope binds, in the order of their declaration. -/
abbrev Bindings := List (String × SymbolId)

/-- The bindings of a scope and of those around it, the innermost first. Parents have
smaller handles, and the outermost scope is the global one. -/
inductive Stack (r : Registry) : ScopeId → List Bindings → Prop where
  | global {id : ScopeId} {s : Scope} : r.global = some id → r.scope? id = some s →
      s.parent = none → Stack r id [s.bindings]
  | inner {id parent : ScopeId} {s : Scope} {frames : List Bindings} : r.global ≠ some id →
      r.scope? id = some s → s.parent = some parent → parent.index < id.index →
      Stack r parent frames → Stack r id (s.bindings :: frames)

/-- The innermost frame that has a name decides what it stands for. -/
def search {β : Type} (frames : List (List (String × β))) (name : String) : Option β :=
  frames.findSome? (·.lookup name)

theorem search_cons {β : Type} (frame : List (String × β)) (frames : List (List (String × β)))
    (name : String) :
    search (frame :: frames) name = (frame.lookup name).or (search frames name) := by
  unfold search
  rw [List.findSome?_cons]
  cases frame.lookup name <;> rfl

variable {r r' : Registry} {id : ScopeId} {frames : List Bindings}

theorem Stack.scope (h : Stack r id frames) :
    ∃ s rest, r.scope? id = some s ∧ frames = s.bindings :: rest := by
  cases h with
  | global _ hs _ => exact ⟨_, [], hs, rfl⟩
  | inner _ hs _ _ _ => exact ⟨_, _, hs, rfl⟩

/-- In the global scope, and only there, the stack has one frame. -/
theorem Stack.global_iff {frame : Bindings} (h : Stack r id (frame :: frames)) :
    r.global = some id ↔ frames = [] := by
  cases h with
  | global hg _ _ => exact ⟨fun _ => rfl, fun _ => hg⟩
  | inner hg _ _ _ hrest =>
    refine ⟨fun he => absurd he hg, fun he => ?_⟩
    rw [he] at hrest
    cases hrest

/-- Handles decrease outwards, so a stack is no higher than its handle allows. -/
theorem Stack.length_le (h : Stack r id frames) : frames.length ≤ id.index + 1 := by
  induction h with
  | global _ _ _ => simp
  | inner _ _ _ hlt _ ih =>
    rw [List.length_cons]
    omega

theorem Stack.lookupWithin {name : String} (h : Stack r id frames) :
    ∀ steps, frames.length ≤ steps + 1 →
      r.lookupWithin name steps id =
        match search frames name with
        | some v => .ok v
        | none => .error (.cause (.undeclaredVariable name)) := by
  induction h with
  | @global id s hg hs hp =>
    intro steps _
    rw [Registry.lookupWithin, search_cons]
    simp only [hs, hp, Scope.get?]
    cases s.bindings.lookup name <;> rfl
  | @inner id parent s frames hg hs hp hlt hrest ih =>
    intro steps hlen
    rw [Registry.lookupWithin, search_cons]
    simp only [hs, hp, Scope.get?]
    cases s.bindings.lookup name with
    | some v => rfl
    | none =>
      have hpos : 0 < frames.length := by
        obtain ⟨_, _, _, hf⟩ := hrest.scope
        rw [hf]
        simp
      rw [List.length_cons] at hlen
      -- the stack is higher than one, so there is a step left to take
      obtain ⟨k, rfl⟩ : ∃ k, steps = k + 1 := ⟨steps - 1, by omega⟩
      simpa using ih k (by omega)

/-- A lookup is a search through the stack. -/
theorem Stack.lookup (h : Stack r id frames) (name : String) :
    r.lookup id name =
      match search frames name with
      | some v => .ok v
      | none => .error (.cause (.undeclaredVariable name)) := by
  obtain ⟨s, _, hs, _⟩ := h.scope
  have hlt := lt_size_of_scope? hs
  have hlen := h.length_le
  exact h.lookupWithin r.scopes.size (by omega)

/-! ## How the stack moves -/

/-- The stack only depends on the scopes up to its own. -/
theorem Stack.congr (h : Stack r id frames) (hg : r'.global = r.global)
    (hsame : ∀ {j : ScopeId} {s : Scope}, j.index ≤ id.index → r.scope? j = some s →
      r'.scope? j = some s) :
    Stack r' id frames := by
  induction h with
  | global hglobal hs hp => exact .global (hg.trans hglobal) (hsame (Nat.le_refl _) hs) hp
  | @inner id parent s frames hglobal hs hp hlt _ ih =>
    refine .inner (by rw [hg]; exact hglobal) (hsame (Nat.le_refl _) hs) hp hlt ?_
    exact ih fun hle => hsame (Nat.le_of_lt (Nat.lt_of_le_of_lt hle hlt))

/-- Where only a scope further inside gains bindings, if any does, the stack stays. -/
theorem Stack.grow {c : Option ScopeId} (h : Stack r id frames) (hg : Grows c r r')
    (hc : ∀ j, c = some j → id.index < j.index) : Stack r' id frames := by
  refine h.congr hg.global ?_
  intro j s hle hs
  refine hg.scope_eq ?_ hs
  intro he
  exact absurd (hc j he) (by omega)

/-- A new scope starts with an empty frame on top. -/
theorem Stack.push (h : Stack r id frames) (hroot : ∃ root, r.global = some root ∧
    root.index < r.scopes.size) :
    Stack (r.newScope id).2 ⟨r.scopes.size⟩ ([] :: frames) := by
  obtain ⟨s, _, hs, _⟩ := h.scope
  obtain ⟨root, hglobal, hroot⟩ := hroot
  refine .inner ?_ (pushScope_scope?_new r (some id)) rfl (lt_size_of_scope? hs)
    (h.grow (pushScope_grows r (some id)) (by simp))
  -- the global scope was there before the new one
  intro he
  have hsame : root = ⟨r.scopes.size⟩ := Option.some.inj (hglobal.symm.trans he)
  rw [hsame] at hroot
  exact Nat.lt_irrefl _ hroot

/-- Every stack stands on a global scope. -/
theorem Stack.root (h : Stack r id frames) :
    ∃ root, r.global = some root ∧ root.index < r.scopes.size := by
  induction h with
  | global hg hs _ => exact ⟨_, hg, lt_size_of_scope? hs⟩
  | inner _ _ _ _ _ ih => exact ih

/-- A declaration adds to the top frame. -/
theorem Stack.bind {frame : Bindings} (h : Stack r id (frame :: frames)) {s : Scope}
    (hs : r.scope? id = some s) (name : String) (y : Symbol) :
    Stack (r.bound id s name y) id ((frame ++ [(name, ⟨r.symbols.size⟩)]) :: frames) := by
  have hnew : (r.bound id s name y).scope? id =
      some { s with bindings := s.bindings ++ [(name, ⟨r.symbols.size⟩)] } := by
    rw [bound_scope? hs, if_pos rfl]
  cases h with
  | global hg hs' hp =>
    obtain rfl : s = _ := Option.some.inj (hs.symm.trans hs')
    exact Stack.global (r := r.bound id s name y) hg hnew hp
  | inner hg hs' hp hlt hrest =>
    obtain rfl : s = _ := Option.some.inj (hs.symm.trans hs')
    refine Stack.inner (r := r.bound id s name y) hg hnew hp hlt (hrest.congr rfl ?_)
    -- the scopes further out have smaller handles and are not touched
    intro j z hle hz
    rw [bound_scope? hs, if_neg]
    · exact hz
    · intro he
      rw [he] at hle
      omega

/-! ## Other stacks beside it

What else is kept in a stack of frames, one value for each variable, can be read off
the registry as long as the two move together. -/

section

variable {β : Type} {B : SymbolId → β → Prop} {name : String} {c : ScopeId}

/-- A binding and an entry of a frame: the same name, with related values. -/
def Pairs (B : SymbolId → β → Prop) (b : String × SymbolId) (x : String × β) : Prop :=
  x.1 = b.1 ∧ B b.2 x.2

/-- From a scope, the registry looks like a stack of frames with values related by `B`. -/
def Mirrors (B : SymbolId → β → Prop) (r : Registry) (c : ScopeId)
    (Γ : List (List (String × β))) : Prop :=
  ∃ frames, Stack r c frames ∧ List.Forall₂ (List.Forall₂ (Pairs B)) frames Γ

variable {Γ : List (List (String × β))}

theorem lookup_related {frame : Bindings} {g : List (String × β)}
    (h : List.Forall₂ (Pairs B) frame g) (name : String) :
    Option.Rel B (frame.lookup name) (g.lookup name) := by
  induction h with
  | nil => exact .none
  | @cons b x frame g hb _ ih =>
    rw [List.lookup_cons, List.lookup_cons, hb.1]
    by_cases hn : name = b.1
    · rw [hn, beq_self_eq_true]
      exact .some hb.2
    · rw [beq_eq_false_iff_ne.mpr hn]
      exact ih

theorem or_related {a b : Option SymbolId} {a' b' : Option β} (h : Option.Rel B a a')
    (h' : Option.Rel B b b') : Option.Rel B (a.or b) (a'.or b') := by
  cases h with
  | none => exact h'
  | some hv => exact .some hv

theorem search_related {frames : List Bindings}
    (h : List.Forall₂ (List.Forall₂ (Pairs B)) frames Γ) (name : String) :
    Option.Rel B (search frames name) (search Γ name) := by
  induction h with
  | nil => exact .none
  | cons hframe _ ih =>
    rw [search_cons, search_cons]
    exact or_related (lookup_related hframe name) ih

namespace Mirrors

/-- A lookup finds what the frames have under the name, and fails where they have
nothing. -/
theorem lookup (h : Mirrors B r c Γ) (name : String) :
    (∃ v x, r.lookup c name = .ok v ∧ search Γ name = some x ∧ B v x) ∨
      (r.lookup c name = .error (.cause (.undeclaredVariable name)) ∧ search Γ name = none) := by
  obtain ⟨frames, hstack, hframes⟩ := h
  have hrel := search_related hframes name
  rw [hstack.lookup]
  generalize search frames name = a at hrel
  generalize search Γ name = b at hrel
  cases hrel with
  | none => exact Or.inr ⟨rfl, rfl⟩
  | some hv => exact Or.inl ⟨_, _, rfl, rfl, hv⟩

theorem of_lookup (h : Mirrors B r c Γ) {v : SymbolId} (hv : r.lookup c name = .ok v) :
    ∃ x, search Γ name = some x ∧ B v x := by
  rcases h.lookup name with ⟨w, x, hw, hx, hB⟩ | ⟨herror, _⟩
  · obtain rfl : v = w := Except.ok.inj (hv.symm.trans hw)
    exact ⟨x, hx, hB⟩
  · rw [hv] at herror
    exact absurd herror (by simp)

/-- The innermost frame is that of the scope, and the outermost that of the global
scope. -/
theorem top (h : Mirrors B r c Γ) :
    ∃ s g outer, r.scope? c = some s ∧ Γ = g :: outer ∧
      (∀ name, s.get? name = none ↔ g.lookup name = none) ∧
      (r.global = some c ↔ outer = []) := by
  obtain ⟨frames, hstack, hframes⟩ := h
  obtain ⟨s, rest, hs, rfl⟩ := hstack.scope
  cases hframes with
  | @cons _ g _ outer hframe hrest =>
    refine ⟨s, g, outer, hs, rfl, ?_, ?_⟩
    · intro name
      have hrel := lookup_related hframe name
      unfold Scope.get?
      generalize s.bindings.lookup name = a at hrel
      generalize g.lookup name = b at hrel
      cases hrel <;> simp
    · rw [hstack.global_iff]
      cases hrest <;> simp

/-- A binding in the scope is an entry of the innermost frame. -/
theorem bind {g : List (String × β)} {outer : List (List (String × β))}
    (h : Mirrors B r c (g :: outer)) {s : Scope} (hs : r.scope? c = some s) (name : String)
    (y : Symbol) {x : β} (hx : B ⟨r.symbols.size⟩ x) :
    Mirrors B (r.bound c s name y) c ((g ++ [(name, x)]) :: outer) := by
  obtain ⟨frames, hstack, hframes⟩ := h
  cases hframes with
  | cons hframe hrest =>
    exact ⟨_, hstack.bind hs name y,
      .cons (List.rel_append hframe (.cons ⟨rfl, hx⟩ .nil)) hrest⟩

/-- Where only scopes further inside gain bindings, the frames stay. -/
theorem grow {i : Option ScopeId} (h : Mirrors B r c Γ) (hg : Grows i r r')
    (hi : ∀ j, i = some j → c.index < j.index) : Mirrors B r' c Γ := by
  obtain ⟨frames, hstack, hframes⟩ := h
  exact ⟨frames, hstack.grow hg hi, hframes⟩

/-- A new scope is one more frame. -/
theorem push (h : Mirrors B r c Γ) :
    Mirrors B (r.newScope c).2 ⟨r.scopes.size⟩ ([] :: Γ) := by
  obtain ⟨frames, hstack, hframes⟩ := h
  exact ⟨[] :: frames, hstack.push hstack.root, .cons .nil hframes⟩

/-- Variables do not depend on the functions. -/
theorem withFunctions (h : Mirrors B r c Γ) (fs : Array Signature)
    (names : List (String × FunctionId)) : Mirrors B (r.withFunctions fs names) c Γ := by
  obtain ⟨frames, hstack, hframes⟩ := h
  exact ⟨frames, hstack.congr rfl fun _ hs => hs, hframes⟩

/-- Related values may be replaced by others. -/
theorem imp {D : SymbolId → β → Prop} (h : Mirrors B r c Γ) (hBD : ∀ {v x}, B v x → D v x) :
    Mirrors D r c Γ := by
  obtain ⟨frames, hstack, hframes⟩ := h
  exact ⟨frames, hstack, hframes.imp fun _ _ hf => hf.imp fun _ _ hb => ⟨hb.1, hBD hb.2⟩⟩

end Mirrors

/-- Checking starts in the global scope, with nothing bound. -/
theorem mirrors_start (withBuiltins : Bool) :
    Mirrors B (Typing.start withBuiltins).registry (Typing.start withBuiltins).context.scope
      [[]] := by
  refine ⟨[[]], ?_, .cons .nil .nil⟩
  refine Stack.global (s := ⟨⟨0⟩, none, []⟩) ?_ ?_ rfl
  · cases withBuiltins <;> decide +kernel
  · cases withBuiltins <;> decide +kernel

end

end CactLang.Registry
