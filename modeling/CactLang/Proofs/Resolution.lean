import CactLang.Proofs.Erasure
import CactLang.Proofs.Numbering
import CactLang.Proofs.Rejected.Statement
import CactLang.Proofs.Visits

/-!
# Names are resolved lexically

What a name stands for can be told from the program text: it is the nearest declaration
before it, block by block outwards, then among the parameters, then among the earlier
declarations of the program. `Program.places` says for each node which declarations are
in sight there, and `Sight.nearest?` picks the nearest one.

> `typeCheck_resolves_nearest`: every name of an accepted program has the variable of
> the nearest declaration, and where a name is reported as undeclared there is none.

No two declarations have the same variable, so the variable tells which declaration is
meant.
-/

namespace CactLang.Typing

/-- A lookup gives the variable of the nearest declaration in sight. -/
theorem At.nearest {s : State} {place : Place} {name : String} {v : SymbolId}
    (hs : At true s place) (h : s.registry.lookup s.context.scope name = .ok v) :
    place.sight.nearest? name = some (some v) := by
  obtain ⟨noted, hnearest, hnoted⟩ := hs.sight.of_lookup h
  rw [← hnoted rfl]
  exact hnearest

/-- A lookup that fails has no declaration in sight. -/
theorem At.nearest_none {annotated : Bool} {s : State} {place : Place} {name : String}
    {refusal : Registry.Refusal} (hs : At annotated s place)
    (h : s.registry.lookup s.context.scope name = .error refusal) :
    refusal = .cause (.undeclaredVariable name) ∧ place.sight.nearest? name = none := by
  rcases hs.sight.lookup name with ⟨v, _, hv, _, _⟩ | ⟨herror, hnone⟩
  · rw [h] at hv
    exact absurd hv (by simp)
  · exact ⟨Except.error.inj (h.symm.trans herror), hnone⟩

/-- Only a name that stands for nothing is blamed for not being declared. -/
theorem Blame.undeclared {r : Registry} {c : Context} {n : Node} {name : String}
    (h : Blame r c n (.undeclaredVariable name)) :
    ∃ l, n = .lvalue l ∧
      r.lookup c.scope l.name = .error (.cause (.undeclaredVariable name)) := by
  cases h with
  | name hlookup => exact ⟨_, rfl, hlookup⟩
  | operand hop => exact absurd (checkOperand_error hop) (by simp)
  | operands hop => exact absurd (checkOperands_error hop) (by simp)
  | callee hcallee => exact absurd (lookupFunction_error hcallee) (by simp)

theorem Visit.resolves {final : Registry} {place : Place} {l : LValue} {s s' : State}
    (h : Visit final place (.lvalue l) s s') :
    ∃ v, l.symbol = some v ∧ place.sight.nearest? l.name = some (some v) := by
  cases h.gives with
  | @lvalue before _ ty hl =>
    obtain ⟨id, name, indices, span, symbol, assignable⟩ := before
    obtain ⟨v, _, _, hv, _, _, _, rfl, _⟩ := checkLValue_ok.mp hl
    exact ⟨v, rfl, h.place.nearest hv⟩

/-- **Lexical name resolution.** In an accepted program, every name has the variable of
its nearest declaration, which is the only one of that name in its block, and whose
variable no other declaration has. If checking fails because a name is not declared,
then the node it fails at is a variable of that name with no declaration in sight. -/
theorem typeCheck_resolves_nearest (withBuiltins : Bool) (p : Program) :
    (∀ p' r, typeCheck withBuiltins p = (.ok p', r) →
      p'.erase = p.erase ∧ p'.places.map Prod.snd = p'.nodes ∧
      (declaredSymbols p'.nodes).Nodup ∧
      ∀ place l, (place, .lvalue l) ∈ p'.places →
        (∀ frame ∈ place.sight, (frame.map Prod.fst).Nodup) ∧
        ∃ v, l.symbol = some v ∧ place.sight.nearest? l.name = some (some v)) ∧
    (∀ d r name, typeCheck withBuiltins p = (.error (.diagnostic d), r) →
      d.cause = .undeclaredVariable name →
      ∃ place l, (place, .lvalue l) ∈ p.places ∧ l.name = name ∧
        d = .ofNode (.undeclaredVariable name) l.id l.span ∧
        place.sight.nearest? name = none) := by
  refine ⟨?_, ?_⟩
  · intro p' r h
    refine ⟨typeCheck_erase h, p'.map_places, typeCheck_symbols_nodup h, ?_⟩
    intro place l hl
    obtain ⟨s, s', hvisit⟩ := typeCheck_visited h _ hl
    exact ⟨hvisit.place.names, hvisit.resolves⟩
  · intro d r name h hcause
    obtain ⟨⟨place, n⟩, hn, s, hs, hfault⟩ := typeCheck_faults h
    -- a bad dimension has a cause of its own, so the node is blamed
    cases hfault with
    | dimension _ _ => exact absurd hcause (by simp [Diagnostic.ofNode])
    | @blame cause hblame =>
      obtain rfl : cause = .undeclaredVariable name := hcause
      obtain ⟨l, rfl, hlookup⟩ := hblame.undeclared
      obtain ⟨hname, hnone⟩ := hs.nearest_none hlookup
      obtain rfl : name = l.name := by simpa using hname
      exact ⟨place, l, hn, rfl, rfl, hnone⟩

/-- A program that uses a name after the block that declares it:

```
int x; void f(int y) { { int z; y = x; } z = y; }
```
-/
def closedBlockSource : String :=
  "int x; void f(int y) \x7b \x7b int z; y = x; \x7d z = y; \x7d"

theorem typeCheck_resolves_nearest_sources :
    (∃ p p' r, readSource? sampleSource = some p ∧ typeCheck true p = (.ok p', r) ∧
      ∀ place l, (place, .lvalue l) ∈ p'.places →
        ∃ v, l.symbol = some v ∧ place.sight.nearest? l.name = some (some v)) ∧
    (∃ p d r, readSource? closedBlockSource = some p ∧
      typeCheck true p = (.error (.diagnostic d), r) ∧ d.cause = .undeclaredVariable "z" ∧
      ∃ place l, (place, .lvalue l) ∈ p.places ∧ l.name = "z" ∧
        place.sight.nearest? "z" = none) := by
  refine ⟨?_, ?_⟩
  · obtain ⟨p, p', r, hp, h⟩ := typeCheck_sampleSource
    obtain ⟨_, _, _, hresolved⟩ := (typeCheck_resolves_nearest true p).1 p' r h
    exact ⟨p, p', r, hp, h, fun place l hl => (hresolved place l hl).2⟩
  · have hrejected : sourceCause? true closedBlockSource = some (.undeclaredVariable "z") := by
      decide +kernel
    obtain ⟨p, d, r, hp, h, hcause⟩ :=
      typeCheck_of_sourceCause? true closedBlockSource hrejected
    obtain ⟨place, l, hl, hname, _, hnone⟩ :=
      (typeCheck_resolves_nearest true p).2 d r "z" h hcause
    exact ⟨p, d, r, hp, h, hcause, place, l, hl, hname, hnone⟩

end CactLang.Typing
