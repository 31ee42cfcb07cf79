import CactLang.Proofs.Erasure
import CactLang.Proofs.Visits

/-!
# Which paths return

A path through a statement takes one branch of every `if` and runs every loop any
number of times, whatever the conditions say. It ends normally, at a `break` or
`continue` that some loop around must take up, or at a `return`. Against this
meaning the flag that checking leaves on statements and blocks is exact:

> `hasReturn_exact`: for the body of a function that passed, the flag is set just
> when no path through it ends normally, which is when every path ends at a `return`.

The rule for blocks is a plain disjunction over the items, although a `break` can
jump over a later `return`. So inside a function the flag says less: if it is set no
path ends normally, and if it is not some path ends otherwise than at a `return`
(`Faithful`). What closes the gap for a body is that there is no loop around it: the
loops inside take up every `break` and `continue`, so the paths that are left end
normally or at a `return` (`stmt_contained`).
-/

namespace CactLang

/-! ## Paths -/

/-- How a path can end. -/
inductive Outcome where
  /-- Behind the statement. -/
  | normal
  /-- At a `break`. -/
  | leave
  /-- At a `continue`. -/
  | next
  /-- At a `return`. -/
  | ret
  deriving DecidableEq, Repr

/-- The ends of the paths through a loop, by those of the paths through its body: the
loop stops before any round, or a round that ends normally or at a `continue` is
followed by more. -/
inductive Rounds (body : Outcome → Prop) : Outcome → Prop where
  | stop : Rounds body .normal
  | again {o o' : Outcome} : body o → o = .normal ∨ o = .next → Rounds body o' → Rounds body o'
  | leave : body .leave → Rounds body .normal
  | ret : body .ret → Rounds body .ret

mutual

/-- Some path through the statement ends like this. -/
def Stmt.Ends : Stmt → Outcome → Prop
  | ⟨_, .assign _ _, _, _⟩, o => o = .normal
  | ⟨_, .expr _, _, _⟩, o => o = .normal
  | ⟨_, .block b, _, _⟩, o => b.Ends o
  | ⟨_, .cond _ thenBranch none, _, _⟩, o => thenBranch.Ends o ∨ o = .normal
  | ⟨_, .cond _ thenBranch (some elseBranch), _, _⟩, o => thenBranch.Ends o ∨ elseBranch.Ends o
  | ⟨_, .loop _ body, _, _⟩, o => Rounds body.Ends o
  | ⟨_, .leave _, _, _⟩, o => o = .leave
  | ⟨_, .next _, _, _⟩, o => o = .next
  | ⟨_, .ret _ _, _, _⟩, o => o = .ret

/-- Some path through the block ends like this. -/
def Block.Ends : Block → Outcome → Prop
  | ⟨_, items, _, _, _⟩, o => BlockItem.EndAll items o

/-- Some path through the items ends like this: they run in order until one does not
end normally. -/
def BlockItem.EndAll : List BlockItem → Outcome → Prop
  | [], o => o = .normal
  | .decl _ :: rest, o => BlockItem.EndAll rest o
  | .stmt t :: rest, o =>
    (t.Ends .normal ∧ BlockItem.EndAll rest o) ∨ (t.Ends o ∧ o ≠ .normal)

end

/-- A flag says the right thing about paths that end like this. -/
structure Faithful (hasReturn : Bool) (ends : Outcome → Prop) : Prop where
  /-- If it is set, no path ends normally. -/
  returns : hasReturn = true → ¬ends .normal
  /-- If it is not, some path does not end at a `return`. -/
  falls : hasReturn = false → ∃ o, ends o ∧ o ≠ .ret

/-- The flags on statements and blocks are faithful. -/
def Node.Faithful : Node → Prop
  | stmt t => CactLang.Faithful t.hasReturn t.Ends
  | block b => CactLang.Faithful b.hasReturn b.Ends
  | _ => True

/-- A flag that is not set is faithful if some path ends otherwise than at a `return`. -/
theorem Faithful.unset {ends : Outcome → Prop} (o : Outcome) (ho : ends o) (hne : o ≠ .ret) :
    Faithful false ends :=
  ⟨fun hr => absurd hr (by simp), fun _ => ⟨o, ho, hne⟩⟩

/-- Of two branches either may be taken. -/
theorem Faithful.and {a b : Bool} {ends ends' : Outcome → Prop} (h : Faithful a ends)
    (h' : Faithful b ends') : Faithful (a && b) fun o => ends o ∨ ends' o := by
  constructor
  · intro hr hn
    obtain ⟨ha, hb⟩ := (Bool.and_eq_true _ _).mp hr
    rcases hn with hn | hn
    · exact h.returns ha hn
    · exact h'.returns hb hn
  · intro hr
    rcases Bool.and_eq_false_iff.mp hr with hr | hr
    · obtain ⟨o, ho, hne⟩ := h.falls hr
      exact ⟨o, Or.inl ho, hne⟩
    · obtain ⟨o, ho, hne⟩ := h'.falls hr
      exact ⟨o, Or.inr ho, hne⟩

/-- What follows a statement is reached by the paths that end normally. -/
theorem Faithful.or {a b : Bool} {ends ends' : Outcome → Prop} (h : Faithful a ends)
    (h' : Faithful b ends') :
    Faithful (a || b) fun o => (ends .normal ∧ ends' o) ∨ (ends o ∧ o ≠ .normal) := by
  constructor
  · intro hr hn
    rcases hn with ⟨hn, hn'⟩ | ⟨_, hne⟩
    · rcases (Bool.or_eq_true _ _).mp hr with hr | hr
      · exact h.returns hr hn
      · exact h'.returns hr hn'
    · exact hne rfl
  · intro hr
    obtain ⟨ha, hb⟩ := Bool.or_eq_false_iff.mp hr
    obtain ⟨o, ho, hne⟩ := h.falls ha
    -- a path of the statement either goes on to the rest or jumps over it
    by_cases hon : o = .normal
    · obtain ⟨o', ho', hne'⟩ := h'.falls hb
      exact ⟨o', Or.inl ⟨hon ▸ ho, ho'⟩, hne'⟩
    · exact ⟨o, Or.inr ⟨ho, hon⟩, hne⟩

/-- Loops take up every `break` and `continue` of their bodies. -/
theorem Rounds.contained {body : Outcome → Prop} {o : Outcome} (h : Rounds body o) :
    o = .normal ∨ o = .ret := by
  induction h with
  | stop => exact Or.inl rfl
  | again _ _ _ ih => exact ih
  | leave _ => exact Or.inl rfl
  | ret _ => exact Or.inr rfl

namespace Typing

/-! ## The flag inside a function -/

/-- An accepted `return` is a `return`, with its flag set. -/
theorem stmt_ret_form {id : NodeId} {value : Option Expr} {function : Option FunctionId}
    {span : Span} {r : Bool} {t' : Stmt} {s s' : State}
    (h : stmt ⟨id, .ret value function, span, r⟩ s = .ok t' s') :
    ∃ value' function', t' = ⟨id, .ret value' function', span, true⟩ := by
  obtain ⟨k, hk, rfl⟩ := stmt_ret_ok.mp h
  cases value with
  | none =>
    obtain ⟨f, _, _, _, _, rfl, _⟩ := returning_none_ok.mp hk
    exact ⟨none, some f, rfl⟩
  | some e =>
    obtain ⟨f, _, e', _, _, _, _, _, _, rfl, _⟩ := returning_some_ok.mp hk
    exact ⟨some e', some f, rfl⟩

mutual

theorem stmt_faithful :
    ∀ {t t' : Stmt} {s s' : State}, stmt t s = .ok t' s' → Faithful t'.hasReturn t'.Ends
  | ⟨_, .assign _ _, _, _⟩, _, _, _, h => by
    obtain ⟨_, _, _, _, _, _, rfl, _⟩ := stmt_assign_ok.mp h
    exact .unset .normal rfl (by simp)
  | ⟨_, .expr none, _, _⟩, _, _, _, h => by
    obtain ⟨rfl, _⟩ := stmt_empty_ok.mp h
    exact .unset .normal rfl (by simp)
  | ⟨_, .expr (some _), _, _⟩, _, _, _, h => by
    obtain ⟨_, _, _, rfl, _⟩ := stmt_expr_ok.mp h
    exact .unset .normal rfl (by simp)
  | ⟨_, .block _, _, _⟩, _, _, _, h => by
    obtain ⟨b', hb, rfl⟩ := stmt_block_ok.mp h
    exact block_faithful hb
  | ⟨_, .cond _ _ none, _, _⟩, _, _, _, h => by
    obtain ⟨_, _, then', _, _, _, rfl⟩ := stmt_if_ok.mp h
    -- without an `else` the branch may be left out
    exact .unset .normal (Or.inr rfl) (by simp)
  | ⟨_, .cond _ _ (some _), _, _⟩, _, _, _, h => by
    obtain ⟨_, _, then', else', _, _, _, ht, he, rfl⟩ := stmt_ifElse_ok.mp h
    exact (stmt_faithful ht).and (stmt_faithful he)
  | ⟨_, .loop _ _, _, _⟩, _, _, _, h => by
    obtain ⟨_, _, body', _, _, _, _, rfl, _⟩ := stmt_loop_ok.mp h
    -- a loop may end before its first round
    exact .unset .normal Rounds.stop (by simp)
  | ⟨_, .leave _, _, _⟩, _, _, _, h => by
    obtain ⟨_, _, rfl, _⟩ := stmt_leave_ok.mp h
    exact .unset .leave rfl (by simp)
  | ⟨_, .next _, _, _⟩, _, _, _, h => by
    obtain ⟨_, _, rfl, _⟩ := stmt_next_ok.mp h
    exact .unset .next rfl (by simp)
  | ⟨_, .ret _ _, _, _⟩, _, _, _, h => by
    obtain ⟨value', fn, rfl⟩ := stmt_ret_form h
    exact ⟨fun _ hn => absurd hn (by simp [Stmt.Ends]), fun hr => absurd hr (by simp)⟩

theorem block_faithful :
    ∀ {b b' : Block} {s s' : State}, block b s = .ok b' s' → Faithful b'.hasReturn b'.Ends
  | ⟨_, _, _, _, _⟩, _, _, _, h => by
    obtain ⟨items', returns, _, hi, rfl, _⟩ := block_ok.mp h
    exact blockItems_faithful hi

theorem blockItems_faithful :
    ∀ {items items' : List BlockItem} {returns : Bool} {s s' : State},
      blockItems items s = .ok (items', returns) s' → Faithful returns (BlockItem.EndAll items')
  | [], _, _, _, _, h => by
    obtain ⟨rfl, rfl, _⟩ := blockItems_nil_ok.mp h
    exact .unset .normal rfl (by simp)
  | .decl _ :: _, _, _, _, _, h => by
    obtain ⟨_, rest', _, _, hrest, rfl⟩ := blockItems_decl_ok.mp h
    have hrest' := blockItems_faithful hrest
    exact ⟨hrest'.returns, hrest'.falls⟩
  | .stmt _ :: _, _, _, _, _, h => by
    obtain ⟨t', rest', later, _, ht, hrest, rfl, rfl⟩ := blockItems_stmt_ok.mp h
    exact (stmt_faithful ht).or (blockItems_faithful hrest)

end

theorem Gives.faithful {s s' : State} {n : Node} (h : Gives s n s') : n.Faithful := by
  cases h with
  | stmt h => exact stmt_faithful h
  | block h => exact block_faithful h
  | _ => trivial

/-! ## The body of a function -/

mutual

/-- Outside of loops, every path ends normally or at a `return`. -/
theorem stmt_contained :
    ∀ {t t' : Stmt} {s s' : State}, stmt t s = .ok t' s' → s.context.loops = [] →
      ∀ o, t'.Ends o → o = .normal ∨ o = .ret
  | ⟨_, .assign _ _, _, _⟩, _, _, _, h, _, o, ho => by
    obtain ⟨_, _, _, _, _, _, rfl, _⟩ := stmt_assign_ok.mp h
    exact Or.inl ho
  | ⟨_, .expr none, _, _⟩, _, _, _, h, _, o, ho => by
    obtain ⟨rfl, _⟩ := stmt_empty_ok.mp h
    exact Or.inl ho
  | ⟨_, .expr (some _), _, _⟩, _, _, _, h, _, o, ho => by
    obtain ⟨_, _, _, rfl, _⟩ := stmt_expr_ok.mp h
    exact Or.inl ho
  | ⟨_, .block _, _, _⟩, _, _, _, h, hl, o, ho => by
    obtain ⟨b', hb, rfl⟩ := stmt_block_ok.mp h
    exact block_contained hb hl o (by simpa only [Stmt.Ends] using ho)
  | ⟨_, .cond _ _ none, _, _⟩, _, _, _, h, hl, o, ho => by
    obtain ⟨_, _, then', _, _, ht, rfl⟩ := stmt_if_ok.mp h
    rcases (by simpa only [Stmt.Ends] using ho : then'.Ends o ∨ o = .normal) with ho | ho
    · exact stmt_contained ht hl o ho
    · exact Or.inl ho
  | ⟨_, .cond _ _ (some _), _, _⟩, _, _, _, h, hl, o, ho => by
    obtain ⟨_, _, then', else', s₁, _, _, ht, he, rfl⟩ := stmt_ifElse_ok.mp h
    rcases (by simpa only [Stmt.Ends] using ho : then'.Ends o ∨ else'.Ends o) with ho | ho
    · exact stmt_contained ht hl o ho
    · have hl₁ : s₁.context.loops = [] := by rw [((stmt_keeps _).ok ht).1]; exact hl
      exact stmt_contained he hl₁ o ho
  | ⟨_, .loop _ _, _, _⟩, _, _, _, h, _, o, ho => by
    obtain ⟨_, _, body', _, _, _, _, rfl, _⟩ := stmt_loop_ok.mp h
    -- a loop keeps the jumps of its body to itself
    exact Rounds.contained (by simpa only [Stmt.Ends] using ho)
  | ⟨_, .leave _, _, _⟩, _, _, _, h, hl, o, ho => by
    obtain ⟨_, hloop, _, _⟩ := stmt_leave_ok.mp h
    -- a jump was accepted, so there is a loop around it
    rw [hl] at hloop
    exact absurd hloop (by simp)
  | ⟨_, .next _, _, _⟩, _, _, _, h, hl, o, ho => by
    obtain ⟨_, hloop, _, _⟩ := stmt_next_ok.mp h
    rw [hl] at hloop
    exact absurd hloop (by simp)
  | ⟨_, .ret _ _, _, _⟩, _, _, _, h, _, o, ho => by
    obtain ⟨value', fn, rfl⟩ := stmt_ret_form h
    exact Or.inr ho

theorem block_contained :
    ∀ {b b' : Block} {s s' : State}, block b s = .ok b' s' → s.context.loops = [] →
      ∀ o, b'.Ends o → o = .normal ∨ o = .ret
  | ⟨_, _, _, _, _⟩, _, _, _, h, hl, o, ho => by
    obtain ⟨items', _, _, hi, rfl, _⟩ := block_ok.mp h
    exact blockItems_contained hi hl o (by simpa only [Block.Ends] using ho)

theorem blockItems_contained :
    ∀ {items items' : List BlockItem} {returns : Bool} {s s' : State},
      blockItems items s = .ok (items', returns) s' → s.context.loops = [] →
      ∀ o, BlockItem.EndAll items' o → o = .normal ∨ o = .ret
  | [], _, _, _, _, h, _, o, ho => by
    obtain ⟨rfl, _, _⟩ := blockItems_nil_ok.mp h
    exact Or.inl (by simpa only [BlockItem.EndAll] using ho)
  | .decl _ :: _, _, _, _, _, h, hl, o, ho => by
    obtain ⟨_, rest', s₁, hd, hrest, rfl⟩ := blockItems_decl_ok.mp h
    have hl₁ : s₁.context.loops = [] := by rw [((decl_keeps _).ok hd).1]; exact hl
    exact blockItems_contained hrest hl₁ o (by simpa only [BlockItem.EndAll] using ho)
  | .stmt _ :: _, _, _, _, _, h, hl, o, ho => by
    obtain ⟨t', rest', _, s₁, ht, hrest, rfl, _⟩ := blockItems_stmt_ok.mp h
    have hl₁ : s₁.context.loops = [] := by rw [((stmt_keeps _).ok ht).1]; exact hl
    rw [BlockItem.EndAll] at ho
    rcases ho with ⟨_, ho⟩ | ⟨ho, _⟩
    · exact blockItems_contained hrest hl₁ o ho
    · exact stmt_contained ht hl o ho

end

/-- In a program the definition `f` passed and came back as `f'`: everything before it
passed, and so did `f`. What comes after it does not matter. -/
def Passed (withBuiltins : Bool) (p : Program) (f f' : FuncDef) : Prop :=
  ∃ before after before' s s', p.items = before ++ .func f :: after ∧
    items before (start withBuiltins) = .ok before' s ∧ funcDef f s = .ok f' s'

/-- **Return completeness is exact.** A definition that passed is the one that was
checked. The flag on its body is set just when no path through the body ends
normally, that is, when every path ends at a `return`; and the flags inside are
faithful. -/
theorem hasReturn_exact {withBuiltins : Bool} {p : Program} {f f' : FuncDef}
    (h : Passed withBuiltins p f f') :
    f'.erase = f.erase ∧
    (f'.body.hasReturn = true ↔ ¬f'.body.Ends .normal) ∧
    (f'.body.hasReturn = true ↔ ∀ o, f'.body.Ends o → o = .ret) ∧
    ∀ n ∈ f'.body.nodes, n.Faithful := by
  obtain ⟨before, after, before', s, s', _, hbefore, hf⟩ := h
  have herase := funcDef_erase hf
  have hin : ∀ n ∈ f'.body.nodes, n.Faithful := by
    intro n hn
    obtain ⟨globals, hs⟩ := (at_start true withBuiltins).items hbefore
    have hmem : n ∈ f'.nodes := List.mem_append_right _ (List.mem_append_left _ hn)
    rw [← f'.map_places globals] at hmem
    obtain ⟨x, hx, rfl⟩ := List.mem_map.mp hmem
    obtain ⟨_, _, hvisit⟩ := funcDef_visited hs hf (.refl _) x hx
    exact hvisit.gives.faithful
  obtain ⟨_, _, ps, s₁, body, s₂, hps, hbody, rfl, _⟩ := funcDef_ok.mp hf
  have hloops : s₁.context.loops = [] := by
    rw [params_context hps]
    show s.context.loops = []
    rw [items_context hbefore]
    rfl
  have hself := block_faithful hbody
  have hends := block_contained hbody hloops
  -- without a loop around, a path that does not return ends normally
  have hnormal : body.hasReturn = false → body.Ends .normal := by
    intro hr
    obtain ⟨o, ho, hne⟩ := hself.falls hr
    rcases hends o ho with rfl | rfl
    · exact ho
    · exact absurd rfl hne
  refine ⟨herase, ⟨hself.returns, ?_⟩, ⟨?_, ?_⟩, hin⟩
  · intro hn
    by_contra hr
    exact hn (hnormal (Bool.eq_false_iff.mpr hr))
  · intro hr o ho
    rcases hends o ho with rfl | rfl
    · exact absurd ho (hself.returns hr)
    · rfl
  · intro hall
    by_contra hr
    exact absurd (hall _ (hnormal (Bool.eq_false_iff.mpr hr))) (by simp)

/-- `int32 f() { while (true) { if (false) break; return 1; } return 0; }`. A jump
passes over the first `return`, and the loop keeps it from passing over the second. -/
def leavingLoop : FuncDef where
  id := ⟨0⟩
  name := "f"
  returns := .int32
  params := []
  span := default
  body := .plain ⟨1⟩ [
    .stmt (.plain ⟨2⟩ (.loop (.plain ⟨3⟩ (.bool true) default)
      (.plain ⟨4⟩ (.block (.plain ⟨5⟩ [
        .stmt (.plain ⟨6⟩ (.cond (.plain ⟨7⟩ (.bool false) default)
          (.plain ⟨8⟩ (.leave none) default) none) default),
        .stmt (.plain ⟨9⟩ (.ret (some (.plain ⟨10⟩ (.number "1" .integer) default)) none) default)]
        default)) default)) default),
    .stmt (.plain ⟨11⟩ (.ret (some (.plain ⟨12⟩ (.number "0" .integer) default)) none) default)]
    default

theorem hasReturn_exact_leavingLoop :
    ∃ f', Passed true ⟨⟨13⟩, [.func leavingLoop], default⟩ leavingLoop f' ∧
      f'.body.hasReturn = true ∧ ∀ o, f'.body.Ends o → o = .ret := by
  have hrun : (match funcDef leavingLoop (start true) with
      | .ok f' _ => f'.body.hasReturn
      | .error _ _ => false) = true := by decide +kernel
  split at hrun
  next f' s' hf =>
    have hpass : Passed true ⟨⟨13⟩, [.func leavingLoop], default⟩ leavingLoop f' :=
      ⟨[], [], [], _, _, rfl, rfl, hf⟩
    exact ⟨f', hpass, hrun, (hasReturn_exact hpass).2.2.1.mp hrun⟩
  next => exact absurd hrun (by simp)

end Typing

end CactLang
