import CactLang.Ty

/-!
# The text of a type

A type is shown by its element kind and its dimensions in brackets, as in `int32[][2]`.
Nothing is lost on the way.

> `Ty.text_inj`: types with the same text are the same.

The text is read from the left: no kind has a bracket in its name, and no number has one in
its digits, so each part ends where the next bracket stands.
-/

namespace CactLang.Ty

/-- What stands between the brackets of a dimension. -/
def dimDigits (dim : Nat) : List Char :=
  if dim = 0 then [] else Nat.toDigits 10 dim

theorem toList_dimText (dim : Nat) : (dimText dim).toList = '[' :: (dimDigits dim ++ [']']) := by
  unfold dimText dimDigits
  by_cases hdim : dim = 0
  · rw [if_pos hdim, if_pos hdim]
    rfl
  · rw [if_neg hdim, if_neg hdim]
    show ("[" ++ Nat.repr dim ++ "]").toList = _
    simp [Nat.toList_repr]

theorem bracket_notMem_dimDigits (dim : Nat) : ']' ∉ dimDigits dim := by
  intro h
  unfold dimDigits at h
  by_cases hdim : dim = 0
  · rw [if_pos hdim] at h
    cases h
  · rw [if_neg hdim] at h
    exact absurd (Nat.isDigit_of_mem_toDigits (by decide) (by decide) h) (by decide)

theorem dimDigits_inj {dim dim' : Nat} (h : dimDigits dim = dimDigits dim') : dim = dim' := by
  unfold dimDigits at h
  by_cases hdim : dim = 0 <;> by_cases hdim' : dim' = 0
  · rw [hdim, hdim']
  · rw [if_pos hdim, if_neg hdim'] at h
    exact absurd h.symm Nat.toDigits_ne_nil
  · rw [if_neg hdim, if_pos hdim'] at h
    exact absurd h Nat.toDigits_ne_nil
  · rw [if_neg hdim, if_neg hdim'] at h
    -- a number can be read back from its digits
    calc
      dim = Nat.ofDigitChars 10 (Nat.toDigits 10 dim) 0 := Nat.ofDigitChars_ten_toDigits.symm
      _ = Nat.ofDigitChars 10 (Nat.toDigits 10 dim') 0 := by rw [h]
      _ = dim' := Nat.ofDigitChars_ten_toDigits

/-- A text is cut in one way only at the first of some character. -/
theorem append_cons_inj {c : Char} {xs ys us vs : List Char} (hx : c ∉ xs) (hy : c ∉ ys)
    (h : xs ++ c :: us = ys ++ c :: vs) : xs = ys ∧ us = vs := by
  induction xs generalizing ys with
  | nil =>
    cases ys with
    | nil => exact ⟨rfl, (List.cons.inj h).2⟩
    | cons y ys => exact absurd ((List.cons.inj h).1 ▸ List.mem_cons_self) hy
  | cons x xs ih =>
    cases ys with
    | nil => exact absurd ((List.cons.inj h).1 ▸ List.mem_cons_self) hx
    | cons y ys =>
      obtain ⟨rfl, htail⟩ := List.cons.inj h
      obtain ⟨rfl, hrest⟩ := ih (fun hc => hx (List.mem_cons_of_mem _ hc))
        (fun hc => hy (List.mem_cons_of_mem _ hc)) htail
      exact ⟨rfl, hrest⟩

/-- The dimensions of a type as written. -/
def dimsText (dims : List Nat) : List Char :=
  dims.flatMap fun dim => (dimText dim).toList

theorem dimsText_cons (dim : Nat) (dims : List Nat) :
    dimsText (dim :: dims) = '[' :: (dimDigits dim ++ ']' :: dimsText dims) := by
  rw [dimsText, List.flatMap_cons, toList_dimText, List.cons_append, List.append_assoc]
  rfl

theorem dimsText_inj {dims dims' : List Nat} (h : dimsText dims = dimsText dims') :
    dims = dims' := by
  induction dims generalizing dims' with
  | nil =>
    cases dims' with
    | nil => rfl
    | cons dim' dims' =>
      rw [dimsText_cons] at h
      cases h
  | cons dim dims ih =>
    cases dims' with
    | nil =>
      rw [dimsText_cons] at h
      cases h
    | cons dim' dims' =>
      rw [dimsText_cons, dimsText_cons] at h
      -- digits contain no bracket, so the first bracket ends the dimension on both sides
      obtain ⟨hdigits, hrest⟩ := append_cons_inj (bracket_notMem_dimDigits dim)
        (bracket_notMem_dimDigits dim') (List.cons.inj h).2
      rw [dimDigits_inj hdigits, ih hrest]

theorem toList_text (t : Ty) : t.text.toList = t.basic.name.toList ++ dimsText t.dims := by
  rw [text, String.toList_append, String.toList_join, List.flatMap_map]
  rfl

/-- After the name of the kind comes a bracket, or the end. -/
theorem dimsText_bracket (dims : List Nat) : ∃ rest, dimsText dims ++ ['['] = '[' :: rest := by
  cases dims with
  | nil => exact ⟨[], rfl⟩
  | cons dim dims => exact ⟨_, congrArg (· ++ ['[']) (dimsText_cons dim dims)⟩

theorem bracket_notMem_name (b : BasicType) : '[' ∉ b.name.toList := by
  cases b <;> decide

theorem name_inj {b b' : BasicType} (h : b.name.toList = b'.name.toList) : b = b' := by
  cases b <;> cases b' <;> first | rfl | exact absurd h (by decide)

/-- Types with the same text are the same. -/
theorem text_inj {t u : Ty} (h : t.text = u.text) : t = u := by
  have hlist : t.basic.name.toList ++ dimsText t.dims = u.basic.name.toList ++ dimsText u.dims := by
    rw [← toList_text, ← toList_text, h]
  obtain ⟨rest, hrest⟩ := dimsText_bracket t.dims
  obtain ⟨rest', hrest'⟩ := dimsText_bracket u.dims
  -- with a bracket behind it, the name of a scalar ends at a bracket too
  have hmarked := congrArg (· ++ ['[']) hlist
  simp only [List.append_assoc, hrest, hrest'] at hmarked
  obtain ⟨hname, _⟩ := append_cons_inj (bracket_notMem_name _) (bracket_notMem_name _) hmarked
  rw [hname] at hlist
  have hbasic := name_inj hname
  have hdims := dimsText_inj (List.append_cancel_left hlist)
  cases t
  cases u
  exact Ty.mk.injEq .. ▸ ⟨hbasic, hdims⟩

theorem text_ne {t u : Ty} (h : t ≠ u) : t.text ≠ u.text :=
  fun htext => h (text_inj htext)

end CactLang.Ty
