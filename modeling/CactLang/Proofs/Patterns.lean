import CactLang.Proofs.Scanned
import Mathlib.Computability.Language

/-!
# The patterns of lexemes

A class of lexemes is a set of texts, put together from characters of a sort and fixed
texts by sequence and choice. The functions that claim lexemes look for them by hand.

> `Munches claim L`: what is claimed of a text is the longest of the texts in `L` that it
> starts with.

A claim is therefore made exactly where a text of the class stands (`Recognises`), and
`Pattern.all` has the set of texts for every class, in the order in which they are tried.
-/

namespace CactLang

open Claim (isWordStart isWordRest isHexDigit)
open Text (isBlank)

namespace Pattern

/-! ## Sets of texts -/

/-- One character of a sort. -/
def one (p : Char → Bool) : Language Char :=
  {w | ∃ c, w = [c] ∧ p c = true}

/-- Any number of characters of a sort. -/
def many (p : Char → Bool) : Language Char :=
  {w | ∀ c ∈ w, p c = true}

/-- A fixed text. -/
def literal (text : String) : Language Char :=
  {text.toList}

/-- Letters, digits and underscores, and no digit first. -/
def word : Language Char :=
  one isWordStart * many isWordRest

/-- Decimal digits. -/
def digits : Language Char :=
  one Char.isDigit * many Char.isDigit

/-- Whether a character starts an exponent. -/
def isExponentMark (c : Char) : Bool :=
  c = 'e' || c = 'E'

/-- Whether a character is a sign. -/
def isSign (c : Char) : Bool :=
  c = '+' || c = '-'

/-- An exponent, perhaps with a sign. -/
def exponent : Language Char :=
  one isExponentMark * ((1 + one isSign) * digits)

/-- Digits on one side of a point or on both, perhaps with an exponent; or digits with an
exponent. -/
def double : Language Char :=
  (many Char.isDigit * (literal "." * digits) + digits * literal ".") * (1 + exponent) +
    digits * exponent

/-- Whether a character ends a float. -/
def isFloatMark (c : Char) : Bool :=
  c = 'f' || c = 'F'

/-- A double with the mark of a float. -/
def float : Language Char :=
  double * one isFloatMark

/-- Whether a character follows the zero of a hexadecimal number. -/
def isHexMark (c : Char) : Bool :=
  c = 'x' || c = 'X'

/-- Hexadecimal digits after `0x` or `0X`. -/
def hexadecimal : Language Char :=
  literal "0" * (one isHexMark * (one isHexDigit * many isHexDigit))

/-- Blank characters. -/
def blanks : Language Char :=
  one isBlank * many isBlank

/-- Two slashes, and no newline. -/
def lineComment : Language Char :=
  literal "//" * many (· ≠ '\n')

/-- Anything between `/*` and `*/`. -/
def blockComment : Language Char :=
  literal "/*" * (many (fun _ => true) * literal "*/")

/-! ### Marks are no digits -/

section

variable {c : Char}

/-- A digit is none of the characters that are not. -/
theorem ne_of_isDigit {d : Char} (hc : c.isDigit = true) (hd : d.isDigit = false) : c ≠ d := by
  rintro rfl
  rw [hc] at hd
  cases hd

/-- A digit is neither of two characters that are none. -/
theorem not_or_of_isDigit {a b : Char} (hc : c.isDigit = true) (ha : a.isDigit = false)
    (hb : b.isDigit = false) : (decide (c = a) || decide (c = b)) = false := by
  rw [Bool.or_eq_false_iff, decide_eq_false_iff_not, decide_eq_false_iff_not]
  exact ⟨ne_of_isDigit hc ha, ne_of_isDigit hc hb⟩

theorem isSign_of_isDigit (hc : c.isDigit = true) : isSign c = false :=
  not_or_of_isDigit hc rfl rfl

theorem isExponentMark_of_isDigit (hc : c.isDigit = true) : isExponentMark c = false :=
  not_or_of_isDigit hc rfl rfl

theorem isFloatMark_of_isDigit (hc : c.isDigit = true) : isFloatMark c = false :=
  not_or_of_isDigit hc rfl rfl

theorem isHexMark_of_isDigit (hc : c.isDigit = true) : isHexMark c = false :=
  not_or_of_isDigit hc rfl rfl

/-- The mark of an exponent is not the one of a float. -/
theorem isFloatMark_of_isExponentMark (hc : isExponentMark c = true) : isFloatMark c = false := by
  unfold isExponentMark at hc
  rw [Bool.or_eq_true, decide_eq_true_iff, decide_eq_true_iff] at hc
  rcases hc with rfl | rfl <;> rfl

end

variable {p : Char → Bool} {w : List Char}

@[simp] theorem mem_one : w ∈ one p ↔ ∃ c, w = [c] ∧ p c = true :=
  Iff.rfl

@[simp] theorem mem_many : w ∈ many p ↔ ∀ c ∈ w, p c = true :=
  Iff.rfl

@[simp] theorem mem_literal {text : String} : w ∈ literal text ↔ w = text.toList :=
  Iff.rfl

/-- At least one character of a sort. -/
theorem mem_one_mul_many : w ∈ one p * many p ↔ w ≠ [] ∧ ∀ c ∈ w, p c = true := by
  rw [Language.mem_mul]
  constructor
  · rintro ⟨_, ⟨c, rfl, hc⟩, v, hv, rfl⟩
    exact ⟨by simp, List.forall_mem_cons.mpr ⟨hc, hv⟩⟩
  · rintro ⟨hne, hw⟩
    obtain ⟨c, v, rfl⟩ := List.exists_cons_of_ne_nil hne
    exact ⟨[c], ⟨c, rfl, hw c List.mem_cons_self⟩, v,
      fun x hx => hw x (List.mem_cons_of_mem c hx), rfl⟩

/-- A zero, its mark, and digits. -/
theorem exists_of_mem_hexadecimal (hw : w ∈ hexadecimal) :
    ∃ x v, w = '0' :: x :: v ∧ isHexMark x = true ∧ ∀ c ∈ v, isHexDigit c = true := by
  obtain ⟨_, rfl, u, hu, rfl⟩ := Language.mem_mul.mp hw
  obtain ⟨_, ⟨x, rfl, hx⟩, v, hv, rfl⟩ := Language.mem_mul.mp hu
  exact ⟨x, v, rfl, hx, (mem_one_mul_many.mp hv).2⟩

/-! ### The empty text -/

section

variable {L M : Language Char}

theorem nil_notMem_add (hL : [] ∉ L) (hM : [] ∉ M) : [] ∉ L + M := by
  rintro (h | h)
  · exact hL h
  · exact hM h

/-- Two words are not empty together if the first cannot be. -/
theorem nil_notMem_mul_left (h : [] ∉ L) : [] ∉ L * M := by
  intro hnil
  obtain ⟨u, hu, v, _, huv⟩ := Language.mem_mul.mp hnil
  obtain ⟨rfl, _⟩ := List.append_eq_nil_iff.mp huv
  exact h hu

/-- Two words are not empty together if the second cannot be. -/
theorem nil_notMem_mul_right (h : [] ∉ M) : [] ∉ L * M := by
  intro hnil
  obtain ⟨u, _, v, hv, huv⟩ := Language.mem_mul.mp hnil
  obtain ⟨_, rfl⟩ := List.append_eq_nil_iff.mp huv
  exact h hv

theorem nil_notMem_one : [] ∉ one p := by
  simp

theorem nil_notMem_digits : [] ∉ digits :=
  nil_notMem_mul_left nil_notMem_one

theorem nil_notMem_double : [] ∉ double :=
  have hpoint : [] ∉ literal "." := by simp
  nil_notMem_add
    (nil_notMem_mul_left (nil_notMem_add (nil_notMem_mul_right (nil_notMem_mul_left hpoint))
      (nil_notMem_mul_left nil_notMem_digits)))
    (nil_notMem_mul_left nil_notMem_digits)

end

/-! ### The characters of a text -/

/-- The texts of a set have only characters with a property. -/
def Over (q : Char → Prop) (L : Language Char) : Prop :=
  ∀ w ∈ L, ∀ c ∈ w, q c

namespace Over

variable {q : Char → Prop} {L M : Language Char}

theorem empty : Over q 1 := by
  rintro _ rfl
  exact List.forall_mem_nil _

theorem one (h : ∀ c, p c = true → q c) : Over q (one p) := by
  rintro _ ⟨c, rfl, hc⟩
  exact List.forall_mem_singleton.mpr (h c hc)

theorem many (h : ∀ c, p c = true → q c) : Over q (many p) :=
  fun _ hw c hc => h c (hw c hc)

theorem literal {text : String} (h : ∀ c ∈ text.toList, q c) : Over q (literal text) := by
  rintro _ rfl
  exact h

theorem add (hL : Over q L) (hM : Over q M) : Over q (L + M) := by
  rintro w (hw | hw)
  · exact hL w hw
  · exact hM w hw

theorem mul (hL : Over q L) (hM : Over q M) : Over q (L * M) := by
  intro w hw
  obtain ⟨u, hu, v, hv, rfl⟩ := Language.mem_mul.mp hw
  exact List.forall_mem_append.mpr ⟨hL u hu, hM v hv⟩

end Over

/-- A double is made of digits, points, marks of exponents and signs. -/
theorem double_over_of {q : Char → Prop} (hdigit : ∀ c : Char, c.isDigit = true → q c)
    (hmark : ∀ c, isExponentMark c = true → q c) (hsign : ∀ c, isSign c = true → q c)
    (hpoint : q '.') : Over q double := by
  have hdigits : Over q digits := (Over.one hdigit).mul (.many hdigit)
  have hexponent : Over q exponent :=
    (Over.one hmark).mul ((Over.empty.add (.one hsign)).mul hdigits)
  have hpoint : Over q (literal ".") := .literal (List.forall_mem_singleton.mpr hpoint)
  have hpointed := ((Over.many hdigit).mul (hpoint.mul hdigits)).add (hdigits.mul hpoint)
  exact (hpointed.mul (Over.empty.add hexponent)).add (hdigits.mul hexponent)

/-- No part of a double is the mark of a float. -/
theorem double_over : Over (isFloatMark · = false) double := by
  refine double_over_of (fun _ => isFloatMark_of_isDigit) (fun _ => isFloatMark_of_isExponentMark)
    (fun c hc => ?_) rfl
  unfold isSign at hc
  rw [Bool.or_eq_true, decide_eq_true_iff, decide_eq_true_iff] at hc
  rcases hc with rfl | rfl <;> rfl

end Pattern

/-! ## Claims and sets of texts -/

/-- What is claimed is the longest text of the set at the front. -/
structure Munches (claim : List Char → Nat) (L : Language Char) : Prop where
  taken : ∀ text, claim text ≠ 0 → ∃ w ∈ L, ∃ rest, text = w ++ rest ∧ w.length = claim text
  longest : ∀ w ∈ L, ∀ rest, w.length ≤ claim (w ++ rest)

/-- What is claimed is in the set, and where a text of the set stands there is a claim. -/
structure Recognises (claim : List Char → Nat) (L : Language Char) : Prop where
  taken : ∀ text, claim text ≠ 0 → ∃ w ∈ L, ∃ rest, text = w ++ rest ∧ w.length = claim text
  found : ∀ w ∈ L, ∀ rest, claim (w ++ rest) ≠ 0

/-- What takes the longest word of a language recognises it. -/
theorem Munches.recognises {claim : List Char → Nat} {L : Language Char} (h : Munches claim L)
    (hne : [] ∉ L) : Recognises claim L := by
  refine ⟨h.taken, fun w hw rest => ?_⟩
  have hlength : 0 < w.length := List.length_pos_of_ne_nil fun hnil => hne (hnil ▸ hw)
  have hle := h.longest w hw rest
  omega

namespace Claim

variable {p : Char → Bool} {w rest text : List Char}

/-! ### Runs -/

/-- A run goes on through all the characters that belong to it. -/
theorem run_append (hw : ∀ c ∈ w, p c = true) : run p (w ++ rest) = w.length + run p rest := by
  unfold run
  rw [List.takeWhile_append_of_pos hw, List.length_append]

theorem run_cons_neg {c : Char} (hc : p c = false) : run p (c :: rest) = 0 := by
  unfold run
  rw [List.takeWhile_cons_of_neg (by simp [hc])]
  rfl

/-- A text is its run, which is of the sort, and a rest that does not start so. -/
theorem run_split (p : Char → Bool) (text : List Char) :
    ∃ w rest, text = w ++ rest ∧ w.length = run p text ∧ (∀ c ∈ w, p c = true) ∧
      ∀ c, rest.head? = some c → p c = false := by
  refine ⟨text.takeWhile p, text.dropWhile p, List.takeWhile_append_dropWhile.symm, rfl,
    List.all_eq_true.mp List.all_takeWhile, fun c hc => ?_⟩
  have hhead := List.head?_dropWhile_not p text
  rw [hc] at hhead
  exact hhead

/-- A run is the longest word of such characters. -/
theorem run_munches (p : Char → Bool) : Munches (run p) (Pattern.one p * Pattern.many p) := by
  constructor
  · intro text hclaim
    obtain ⟨w, rest, htext, hlength, hw, _⟩ := run_split p text
    refine ⟨w, Pattern.mem_one_mul_many.mpr ⟨?_, hw⟩, rest, htext, hlength⟩
    rintro rfl
    exact hclaim hlength.symm
  · intro w hw rest
    rw [run_append (Pattern.mem_one_mul_many.mp hw).2]
    omega

theorem run_recognises (p : Char → Bool) :
    Recognises (run p) (Pattern.one p * Pattern.many p) :=
  (run_munches p).recognises (Pattern.nil_notMem_mul_left Pattern.nil_notMem_one)

/-! ### Words and integers -/

/-- A name or keyword goes on for as long as its characters do. -/
theorem word_munches : Munches word Pattern.word := by
  constructor
  · intro text hclaim
    cases text with
    | nil => exact absurd rfl hclaim
    | cons c text =>
      rw [word] at hclaim ⊢
      split at hclaim
      next hc =>
        obtain ⟨w, rest, rfl, hlength, hw, _⟩ := run_split isWordRest text
        refine ⟨[c] ++ w, Language.append_mem_mul ⟨c, rfl, hc⟩ hw, rest, rfl, ?_⟩
        rw [if_pos hc, ← hlength, List.length_append, List.length_singleton, Nat.add_comm]
      next => exact absurd rfl hclaim
  · intro w hw rest
    obtain ⟨_, ⟨c, rfl, hc⟩, v, hv, rfl⟩ := Language.mem_mul.mp hw
    show _ ≤ word (c :: (v ++ rest))
    rw [word, if_pos hc, run_append hv, List.length_append, List.length_singleton]
    omega

theorem digits_munches : Munches digits Pattern.digits :=
  run_munches Char.isDigit

/-- After the mark, hexadecimal digits are asked for. -/
theorem hexadecimal_cons {x : Char} (hx : Pattern.isHexMark x = true) (text : List Char) :
    hexadecimal ('0' :: x :: text) =
      if run isHexDigit text = 0 then 0 else run isHexDigit text + 2 := by
  show (if Pattern.isHexMark x = true then _ else 0) = _
  rw [if_pos hx]
  cases run isHexDigit text <;> simp

/-- A hexadecimal number is the longest one. -/
theorem hexadecimal_munches : Munches hexadecimal Pattern.hexadecimal := by
  constructor
  · intro text hclaim
    unfold hexadecimal at hclaim
    split at hclaim
    next x text =>
      split at hclaim
      next hx =>
        rw [hexadecimal_cons hx]
        -- a mark without digits after it is not claimed at all
        have hrun : run isHexDigit text ≠ 0 := by
          intro hzero
          rw [hzero] at hclaim
          exact hclaim rfl
        obtain ⟨w, hw, rest, rfl, hlength⟩ := (run_munches isHexDigit).taken text hrun
        refine ⟨"0".toList ++ ([x] ++ w), ?_, rest, rfl, ?_⟩
        · exact Language.append_mem_mul rfl (Language.append_mem_mul ⟨x, rfl, hx⟩ hw)
        · rw [if_neg hrun, ← hlength]
          rfl
      next => exact absurd rfl hclaim
    next => exact absurd rfl hclaim
  · intro w hw rest
    obtain ⟨_, rfl, u, hu, rfl⟩ := Language.mem_mul.mp hw
    obtain ⟨_, ⟨x, rfl, hx⟩, v, hv, rfl⟩ := Language.mem_mul.mp hu
    have hle := (run_munches isHexDigit).longest v hv rest
    have hne := (run_recognises isHexDigit).found v hv rest
    show v.length + 2 ≤ hexadecimal ('0' :: x :: (v ++ rest))
    rw [hexadecimal_cons hx, if_neg hne]
    exact Nat.add_le_add_right hle 2

/-! ### Exponents, doubles and floats -/

/-- A text is its sign, if it has one, and what follows. -/
theorem sign_split (text : List Char) :
    ∃ s ∈ 1 + Pattern.one Pattern.isSign, ∃ rest, text = s ++ rest ∧ s.length = sign text := by
  cases text with
  | nil => exact ⟨[], Or.inl rfl, [], rfl, rfl⟩
  | cons c text =>
    by_cases hc : Pattern.isSign c = true
    · refine ⟨[c], Or.inr ⟨c, rfl, hc⟩, text, rfl, ?_⟩
      show 1 = if Pattern.isSign c = true then 1 else 0
      rw [if_pos hc]
    · refine ⟨[], Or.inl rfl, c :: text, rfl, ?_⟩
      show 0 = if Pattern.isSign c = true then 1 else 0
      rw [if_neg hc]

/-- A digit is no sign. -/
theorem sign_append {s w rest : List Char} (hs : s ∈ 1 + Pattern.one Pattern.isSign)
    (hw : w ∈ Pattern.digits) : sign (s ++ (w ++ rest)) = s.length := by
  rcases hs with rfl | ⟨c, rfl, hc⟩
  · obtain ⟨_, ⟨d, rfl, hd⟩, v, _, rfl⟩ := Language.mem_mul.mp hw
    have hsign : Pattern.isSign d = false := Pattern.isSign_of_isDigit hd
    show (if Pattern.isSign d = true then 1 else 0) = 0
    rw [hsign]
    rfl
  · show (if Pattern.isSign c = true then 1 else 0) = 1
    rw [if_pos hc]

/-- After the mark and a sign, digits are asked for. -/
theorem exponent_cons {c : Char} (hc : Pattern.isExponentMark c = true) (text : List Char) :
    exponent (c :: text) =
      if digits (text.drop (sign text)) = 0 then 0
      else digits (text.drop (sign text)) + sign text + 1 := by
  show (if Pattern.isExponentMark c = true then _ else 0) = _
  rw [if_pos hc]
  cases digits (text.drop (sign text)) with
  | zero => rfl
  | succ n =>
    simp only [Nat.succ_ne_zero, if_false]
    omega

/-- An exponent is the longest one. -/
theorem exponent_munches : Munches exponent Pattern.exponent := by
  constructor
  · intro text hclaim
    cases text with
    | nil => exact absurd rfl hclaim
    | cons c text =>
      by_cases hc : Pattern.isExponentMark c = true
      · rw [exponent_cons hc] at hclaim ⊢
        have hdigits : digits (text.drop (sign text)) ≠ 0 := fun hzero => hclaim (if_pos hzero)
        -- the text falls apart as the pattern does: mark, sign or none, digits
        obtain ⟨s, hs, tail, rfl, hsign⟩ := sign_split text
        rw [← hsign, List.drop_left] at hdigits ⊢
        obtain ⟨w, hw, rest, rfl, hlength⟩ := digits_munches.taken tail hdigits
        refine ⟨[c] ++ (s ++ w), ?_, rest, ?_, ?_⟩
        · exact Language.append_mem_mul ⟨c, rfl, hc⟩ (Language.append_mem_mul hs hw)
        · simp
        · rw [if_neg hdigits, ← hlength]
          simp only [List.length_append, List.length_singleton]
          omega
      · exact absurd (show exponent (c :: text) = 0 from if_neg hc) hclaim
  · intro w hw rest
    obtain ⟨_, ⟨c, rfl, hc⟩, u, hu, rfl⟩ := Language.mem_mul.mp hw
    obtain ⟨s, hs, v, hv, rfl⟩ := Language.mem_mul.mp hu
    have hle := digits_munches.longest v hv rest
    have hpos : 0 < v.length :=
      List.length_pos_of_ne_nil (Pattern.mem_one_mul_many.mp hv).1
    show _ ≤ exponent (c :: (s ++ v ++ rest))
    rw [exponent_cons hc, List.append_assoc, sign_append hs hv, List.drop_left, if_neg (by omega)]
    simp only [List.length_append, List.length_singleton]
    omega

/-- Digits and then a point. -/
theorem double_point {ds : List Char} (hds : ∀ c ∈ ds, c.isDigit = true) (rest : List Char) :
    double (ds ++ '.' :: rest) =
      if ds.length + digits rest = 0 then 0
      else ds.length + 1 + digits rest + exponent (rest.drop (digits rest)) := by
  have hwhole : digits (ds ++ '.' :: rest) = ds.length := by
    unfold digits
    rw [run_append hds, run_cons_neg rfl, Nat.add_zero]
  unfold double
  simp only [hwhole, List.drop_left]

/-- Digits and then neither a digit nor a point. -/
theorem double_noPoint {ds rest : List Char} (hds : ∀ c ∈ ds, c.isDigit = true)
    (hrest : ∀ c, rest.head? = some c → c.isDigit = false ∧ c ≠ '.') :
    double (ds ++ rest) =
      if ds.length = 0 ∨ exponent rest = 0 then 0 else ds.length + exponent rest := by
  have hwhole : digits (ds ++ rest) = ds.length := by
    unfold digits
    rw [run_append hds]
    cases rest with
    | nil => rfl
    | cons c rest => rw [run_cons_neg (hrest c rfl).1, Nat.add_zero]
  unfold double
  simp only [hwhole, List.drop_left]
  split
  next => exact absurd rfl (hrest '.' rfl).2
  next =>
    by_cases hzero : ds.length = 0
    · simp only [hzero, true_or, if_true]
    · cases exponent rest <;> simp [hzero, Nat.add_assoc]

/-- An exponent, if there is one. -/
theorem exponent_split (text : List Char) :
    ∃ w ∈ 1 + Pattern.exponent, ∃ rest, text = w ++ rest ∧ w.length = exponent text := by
  by_cases hzero : exponent text = 0
  · exact ⟨[], Or.inl rfl, text, rfl, hzero.symm⟩
  · obtain ⟨w, hw, rest, htext, hlength⟩ := exponent_munches.taken text hzero
    exact ⟨w, Or.inr hw, rest, htext, hlength⟩

theorem length_point : ".".toList.length = 1 :=
  rfl

/-- A text is its digits, and then a point or neither a point nor a digit. -/
theorem digits_split (text : List Char) :
    ∃ ds tail, text = ds ++ tail ∧ ds.length = digits text ∧ (∀ c ∈ ds, c.isDigit = true) ∧
      ((∃ rest, tail = '.' :: rest) ∨ ∀ c, tail.head? = some c → c.isDigit = false ∧ c ≠ '.') := by
  obtain ⟨ds, tail, htext, hlength, hds, hhead⟩ := run_split Char.isDigit text
  refine ⟨ds, tail, htext, hlength, hds, ?_⟩
  by_cases hpoint : ∃ rest, tail = '.' :: rest
  · exact .inl hpoint
  · refine .inr fun c hc => ⟨hhead c hc, ?_⟩
    rintro rfl
    exact hpoint (List.head?_eq_some_iff.mp hc)

/-- What is taken for a double is the text of one. -/
theorem double_taken (text : List Char) (hclaim : double text ≠ 0) :
    ∃ w ∈ Pattern.double, ∃ rest, text = w ++ rest ∧ w.length = double text := by
  obtain ⟨ds, tail, rfl, _, hds, ⟨rest, rfl⟩ | hrest⟩ := digits_split text
  · rw [double_point hds] at hclaim ⊢
    have hsome : ds.length + digits rest ≠ 0 := fun hzero => hclaim (if_pos hzero)
    obtain ⟨fs, after, rfl, hfraction, hfs, _⟩ := run_split Char.isDigit rest
    rw [if_neg hsome, digits, ← hfraction, List.drop_left]
    obtain ⟨e, he, rest, rfl, hexponent⟩ := exponent_split after
    refine ⟨(ds ++ (".".toList ++ fs)) ++ e, Or.inl (Language.append_mem_mul ?_ he), rest, ?_, ?_⟩
    · -- the point stands between digits or, if none follow it, after some
      by_cases hnone : fs = []
      · subst hnone
        rw [digits, ← hfraction] at hsome
        refine Or.inr (Language.append_mem_mul (Pattern.mem_one_mul_many.mpr ⟨?_, hds⟩) rfl)
        rintro rfl
        exact hsome rfl
      · exact Or.inl (Language.append_mem_mul hds
          (Language.append_mem_mul rfl (Pattern.mem_one_mul_many.mpr ⟨hnone, hfs⟩)))
    · simp
    · rw [← hexponent]
      simp only [List.length_append, length_point]
      omega
  · rw [double_noPoint hds hrest] at hclaim ⊢
    have hboth : ¬(ds.length = 0 ∨ exponent tail = 0) := fun hzero => hclaim (if_pos hzero)
    obtain ⟨hdigits, hexponent⟩ := not_or.mp hboth
    obtain ⟨e, he, rest, rfl, hlast⟩ := exponent_munches.taken tail hexponent
    refine ⟨ds ++ e, Or.inr (Language.append_mem_mul (Pattern.mem_one_mul_many.mpr ⟨?_, hds⟩) he),
      rest, by simp, ?_⟩
    · rintro rfl
      exact hdigits rfl
    · rw [if_neg hboth, ← hlast, List.length_append]

/-- The mark of an exponent is neither a digit nor a point. -/
theorem exponent_head {e : List Char} (he : e ∈ Pattern.exponent) (rest : List Char) (c : Char)
    (hc : (e ++ rest).head? = some c) : c.isDigit = false ∧ c ≠ '.' := by
  obtain ⟨_, ⟨mark, rfl, hmark⟩, v, _, rfl⟩ := Language.mem_mul.mp he
  obtain rfl : mark = c := Option.some.inj hc
  unfold Pattern.isExponentMark at hmark
  rw [Bool.or_eq_true, decide_eq_true_iff, decide_eq_true_iff] at hmark
  rcases hmark with rfl | rfl <;> decide

/-- With a point, the fraction and the exponent are taken as well. -/
theorem double_longest_point {ds fs e : List Char} (hds : ∀ c ∈ ds, c.isDigit = true)
    (hfs : ∀ c ∈ fs, c.isDigit = true) (hsome : ds.length + fs.length ≠ 0)
    (he : e ∈ 1 + Pattern.exponent) (rest : List Char) :
    ds.length + 1 + fs.length + e.length ≤ double (ds ++ '.' :: (fs ++ (e ++ rest))) := by
  have hfraction : digits (fs ++ (e ++ rest)) = fs.length + digits (e ++ rest) := run_append hfs
  rw [double_point hds, hfraction, if_neg (by omega)]
  rcases he with rfl | he
  · simp only [List.length_nil]
    omega
  · -- the exponent ends the fraction, so all of it is claimed
    have hzero : digits (e ++ rest) = 0 := by
      cases hrest : e ++ rest with
      | nil => rfl
      | cons c tail => exact run_cons_neg (exponent_head he rest c (by rw [hrest]; rfl)).1
    have hle := exponent_munches.longest e he rest
    simp only [hzero, Nat.add_zero, List.drop_left]
    omega

/-- Every text of a double is taken whole. -/
theorem double_longest {w : List Char} (hw : w ∈ Pattern.double) (rest : List Char) :
    w.length ≤ double (w ++ rest) := by
  rcases hw with hw | hw
  · obtain ⟨u, hu, e, he, rfl⟩ := Language.mem_mul.mp hw
    rcases hu with hu | hu
    · -- digits after the point
      obtain ⟨ds, hds, v, hv, rfl⟩ := Language.mem_mul.mp hu
      obtain ⟨_, rfl, fs, hfs, rfl⟩ := Language.mem_mul.mp hv
      obtain ⟨hne, hfs⟩ := Pattern.mem_one_mul_many.mp hfs
      have hpos := List.length_pos_of_ne_nil hne
      have hle := double_longest_point hds hfs (by omega) he rest
      have htext : ds ++ (".".toList ++ fs) ++ e ++ rest = ds ++ '.' :: (fs ++ (e ++ rest)) := by
        simp
      rw [htext]
      simp only [List.length_append, length_point]
      omega
    · -- digits only before it: the case above with no digits after the point
      obtain ⟨ds, hds, _, rfl, rfl⟩ := Language.mem_mul.mp hu
      obtain ⟨hne, hds⟩ := Pattern.mem_one_mul_many.mp hds
      have hpos := List.length_pos_of_ne_nil hne
      have hle := double_longest_point hds (List.forall_mem_nil _) (Nat.ne_of_gt hpos) he rest
      have htext : ds ++ ".".toList ++ e ++ rest = ds ++ '.' :: ([] ++ (e ++ rest)) := by simp
      rw [htext]
      simp only [List.length_append, length_point]
      exact hle
  · -- no point, so the exponent has to be there
    obtain ⟨ds, hds, e, he, rfl⟩ := Language.mem_mul.mp hw
    obtain ⟨hne, hds⟩ := Pattern.mem_one_mul_many.mp hds
    have hpos := List.length_pos_of_ne_nil hne
    have hle := exponent_munches.longest e he rest
    have hsome : 0 < e.length := by
      obtain ⟨_, ⟨mark, rfl, _⟩, v, _, rfl⟩ := Language.mem_mul.mp he
      exact Nat.succ_pos _
    rw [List.append_assoc, double_noPoint hds (exponent_head he rest), if_neg (by omega),
      List.length_append]
    omega

/-- A double is the longest one. -/
theorem double_munches : Munches double Pattern.double :=
  ⟨double_taken, fun _ hw rest => double_longest hw rest⟩

/-- A double that is followed by the mark of a float makes a float. -/
theorem float_append {w tail : List Char} (hlength : w.length = double (w ++ tail))
    (hw : w ≠ []) :
    float (w ++ tail) = if tail.head?.any Pattern.isFloatMark then w.length + 1 else 0 := by
  obtain ⟨n, hn⟩ : ∃ n, w.length = n + 1 := Nat.exists_eq_succ_of_ne_zero (by simpa using hw)
  have hdrop : (w ++ tail).drop (n + 1) = tail := by rw [← hn, List.drop_left]
  unfold float
  rw [← hlength, hn]
  simp only [hdrop]
  cases tail with
  | nil => rfl
  | cons c rest => rfl

/-- A float is a double with a mark. -/
theorem double_ne_zero (h : float text ≠ 0) : double text ≠ 0 := by
  intro hzero
  rw [float, hzero] at h
  exact h rfl

/-- A float is the longest one. -/
theorem float_munches : Munches float Pattern.float := by
  constructor
  · intro text hclaim
    obtain ⟨w, hw, tail, rfl, hlength⟩ := double_munches.taken text (double_ne_zero hclaim)
    rw [float_append hlength (ne_of_mem_of_not_mem hw Pattern.nil_notMem_double)] at hclaim ⊢
    cases tail with
    | nil => exact absurd rfl hclaim
    | cons c rest =>
      by_cases hc : Pattern.isFloatMark c = true
      · refine ⟨w ++ [c], Language.append_mem_mul hw ⟨c, rfl, hc⟩, rest, by simp, ?_⟩
        rw [if_pos (by simpa using hc), List.length_append, List.length_singleton]
      · exact absurd (if_neg (by simpa using hc)) hclaim
  · intro w hw rest
    obtain ⟨v, hv, _, ⟨c, rfl, hc⟩, rfl⟩ := Language.mem_mul.mp hw
    rw [List.append_assoc]
    have hle := double_munches.longest v hv ([c] ++ rest)
    have hne : v ≠ [] := ne_of_mem_of_not_mem hv Pattern.nil_notMem_double
    have hpos := List.length_pos_of_ne_nil hne
    have hlength : v.length = double (v ++ ([c] ++ rest)) := by
      by_contra hlonger
      -- a longer double would have the mark in it
      obtain ⟨u, hu, tail, htext, hu_length⟩ :=
        double_munches.taken (v ++ ([c] ++ rest)) (by omega)
      have hstart : v ++ [c] <+: u := by
        refine List.prefix_of_prefix_length_le ⟨rest, List.append_assoc ..⟩ ⟨tail, htext.symm⟩ ?_
        rw [List.length_append, List.length_singleton]
        omega
      have hfree : Pattern.isFloatMark c = false :=
        Pattern.double_over u hu c (hstart.subset (by simp))
      rw [hc] at hfree
      cases hfree
    rw [float_append hlength hne, if_pos (by simpa using hc), List.length_append,
      List.length_singleton]

/-! ### Layout and symbols -/

/-- A comment is claimed up to the end of the line. -/
theorem lineComment_taken (text : List Char) (hclaim : lineComment text ≠ 0) :
    ∃ w ∈ Pattern.lineComment, ∃ rest, text = w ++ rest ∧ w.length = lineComment text ∧
      ∀ c, rest.head? = some c → c = '\n' := by
  unfold lineComment at hclaim
  split at hclaim
  next text =>
    obtain ⟨w, rest, rfl, hlength, hw, hhead⟩ := run_split (· ≠ '\n') text
    refine ⟨"//".toList ++ w, Language.append_mem_mul rfl hw, rest, rfl, ?_, ?_⟩
    · rw [lineComment, ← hlength]
      rfl
    · intro c hc
      simpa using hhead c hc
  next => exact absurd rfl hclaim

/-- A line comment goes on to the end of its line. -/
theorem lineComment_munches : Munches lineComment Pattern.lineComment := by
  constructor
  · intro text hclaim
    obtain ⟨w, hw, rest, htext, hlength, _⟩ := lineComment_taken text hclaim
    exact ⟨w, hw, rest, htext, hlength⟩
  · intro w hw rest
    obtain ⟨_, rfl, v, hv, rfl⟩ := Language.mem_mul.mp hw
    show v.length + 2 ≤ run (· ≠ '\n') (v ++ rest) + 2
    rw [run_append hv]
    omega

/-- A comment ends with the first `*/`. -/
theorem commentEnd?_some {text : List Char} {n : Nat} (h : commentEnd? text = some n) :
    ∃ body rest, text = body ++ "*/".toList ++ rest ∧ n = body.length + 2 ∧
      ¬"*/".toList <:+: body := by
  induction text using commentEnd?.induct generalizing n with
  | case1 => cases h
  | case2 rest =>
    obtain rfl := Option.some.inj h
    exact ⟨[], rest, rfl, rfl, by decide⟩
  | case3 c text hstart ih =>
    rw [commentEnd?] at h
    · obtain ⟨m, hm, rfl⟩ := Option.map_eq_some_iff.mp h
      obtain ⟨body, rest, rfl, rfl, hbody⟩ := ih hm
      refine ⟨c :: body, rest, rfl, rfl, ?_⟩
      rw [List.infix_cons_iff]
      rintro (⟨tail, htail⟩ | hinside)
      · -- the text would start with a `*/`
        obtain ⟨hc, hrest⟩ := List.cons.inj htail
        refine hstart (tail ++ "*/".toList ++ rest) hc.symm ?_
        rw [← hrest]
        rfl
      · exact hbody hinside
    · exact hstart

/-- Where a `*/` follows, the comment ends. -/
theorem commentEnd?_isSome (body rest : List Char) :
    (commentEnd? (body ++ "*/".toList ++ rest)).isSome = true := by
  induction body with
  | nil => rfl
  | cons c body ih =>
    rw [List.cons_append, List.cons_append, commentEnd?.eq_def]
    split
    next heq => cases heq
    next => rfl
    next heq =>
      obtain ⟨_, rfl⟩ := List.cons.inj heq
      rw [Option.isSome_map]
      exact ih

/-- A comment is claimed up to the first `*/`. -/
theorem blockComment_taken (text : List Char) (hclaim : blockComment text ≠ 0) :
    ∃ body rest, text = "/*".toList ++ body ++ "*/".toList ++ rest ∧
      ("/*".toList ++ body ++ "*/".toList).length = blockComment text ∧
      ¬"*/".toList <:+: body := by
  unfold blockComment at hclaim ⊢
  split at hclaim
  next text =>
    split at hclaim
    next n hn =>
      obtain ⟨body, rest, rfl, rfl, hbody⟩ := commentEnd?_some hn
      exact ⟨body, rest, rfl, by simp, hbody⟩
    next => exact absurd rfl hclaim
  next => exact absurd rfl hclaim

/-- A block comment ends with the first closing mark, so it is not the longest of its language. -/
theorem blockComment_recognises : Recognises blockComment Pattern.blockComment := by
  constructor
  · intro text hclaim
    obtain ⟨body, rest, htext, hlength, _⟩ := blockComment_taken text hclaim
    refine ⟨"/*".toList ++ body ++ "*/".toList, ?_, rest, htext, hlength⟩
    rw [List.append_assoc]
    exact Language.append_mem_mul rfl (Language.append_mem_mul (fun _ _ => rfl) rfl)
  · intro w hw rest
    obtain ⟨_, rfl, u, hu, rfl⟩ := Language.mem_mul.mp hw
    obtain ⟨body, _, _, rfl, rfl⟩ := Language.mem_mul.mp hu
    obtain ⟨n, hn⟩ := Option.isSome_iff_exists.mp (commentEnd?_isSome body rest)
    have hopen : "/*".toList ++ (body ++ "*/".toList) ++ rest =
        '/' :: '*' :: (body ++ "*/".toList ++ rest) := rfl
    rw [hopen, blockComment, hn]
    exact Nat.succ_ne_zero _

/-- A text that is looked for as a whole is the only word of its language. -/
theorem fixed_munches (text : String) :
    Munches (fixed text.toList text.toList) (Pattern.literal text) := by
  constructor
  · intro t hclaim
    unfold fixed at hclaim ⊢
    split at hclaim
    next hstart =>
      obtain ⟨rest, rfl⟩ := List.isPrefixOf_iff_prefix.mp hstart
      exact ⟨text.toList, rfl, rest, rfl, by rw [if_pos hstart]⟩
    next => exact absurd rfl hclaim
  · rintro w rfl rest
    have hstart : text.toList.isPrefixOf (text.toList ++ rest) = true :=
      List.isPrefixOf_iff_prefix.mpr ⟨rest, rfl⟩
    unfold fixed
    rw [if_pos hstart]

end Claim

/-! ## The table of patterns -/

/-- A class of lexemes with the set of its texts. -/
structure Pattern where
  cls : LexemeClass
  language : Language Char
  recognises : Recognises cls.claim language

namespace Pattern

/-- The text of a symbol is found where it stands. -/
theorem symbol_recognises {row : SymbolRow} (hagree : row.literal = row.pattern)
    (hne : row.pattern.toList ≠ []) :
    Recognises (LexemeClass.symbol row).claim (literal row.pattern) := by
  show Recognises (Claim.fixed row.pattern.toList row.literal.toList) _
  rw [hagree]
  exact (Claim.fixed_munches row.pattern).recognises fun h => hne h.symm

/-- The two texts of a symbol agree, and they are not empty. -/
theorem symbols_proper :
    ∀ row ∈ symbols, row.literal = row.pattern ∧ row.pattern.toList ≠ [] := by
  have hne : ∀ row ∈ symbols, row.pattern.toList ≠ [] := by decide
  exact fun row hrow => ⟨symbols_agree row hrow, hne row hrow⟩

/-- The pattern of a symbol. -/
def ofSymbol (row : {row : SymbolRow // row.literal = row.pattern ∧ row.pattern.toList ≠ []}) :
    Pattern where
  cls := .symbol row.1
  language := literal row.1.pattern
  recognises := symbol_recognises row.2.1 row.2.2

/-- Every pattern, in the order in which they are tried. -/
def all : List Pattern :=
  [⟨.word, word, Claim.word_munches.recognises (nil_notMem_mul_left nil_notMem_one)⟩,
    ⟨.token .floatLiteral Claim.float, float,
      Claim.float_munches.recognises (nil_notMem_mul_left nil_notMem_double)⟩,
    ⟨.token .doubleLiteral Claim.double, double,
      Claim.double_munches.recognises nil_notMem_double⟩,
    ⟨.token .integerLiteral Claim.hexadecimal, hexadecimal,
      Claim.hexadecimal_munches.recognises (nil_notMem_mul_left (by simp))⟩,
    ⟨.token .integerLiteral Claim.digits, digits, Claim.run_recognises Char.isDigit⟩,
    ⟨.layout Claim.blanks, blanks, Claim.run_recognises isBlank⟩,
    ⟨.layout Claim.lineComment, lineComment,
      Claim.lineComment_munches.recognises (nil_notMem_mul_left (by simp))⟩,
    ⟨.layout Claim.blockComment, blockComment, Claim.blockComment_recognises⟩] ++
  (symbols.attachWith _ symbols_proper).map ofSymbol

/-- The classes of the patterns are all classes. -/
theorem map_cls_all : all.map cls = LexemeClass.all := by
  rfl

end Pattern

/-- A lexeme is a text of a pattern. -/
theorem Lexeme.exists_pattern {text : List Char} {l : Lexeme} (h : first? text = some l) :
    ∃ pattern ∈ Pattern.all, l.text ∈ pattern.language ∧ l.kind = pattern.cls.kind l.text := by
  obtain ⟨cls, hcls, hclaim, htext, hkind⟩ := exists_class h
  rw [← Pattern.map_cls_all] at hcls
  obtain ⟨pattern, hpattern, rfl⟩ := List.mem_map.mp hcls
  obtain ⟨w, hw, rest, rfl, hlength⟩ := pattern.recognises.taken text hclaim
  rw [← hlength, List.take_left] at htext
  exact ⟨pattern, hpattern, htext ▸ hw, hkind⟩

/-- Where no lexeme is found, no pattern matches. -/
theorem Lexeme.no_pattern {text : List Char} (h : first? text = none) {pattern : Pattern}
    (hpattern : pattern ∈ Pattern.all) {w : List Char} (hw : w ∈ pattern.language) :
    ¬w <+: text := by
  rintro ⟨rest, rfl⟩
  have hclaim := pattern.recognises.found w hw rest
  have hcls : pattern.cls ∈ LexemeClass.all := by
    rw [← Pattern.map_cls_all]
    exact List.mem_map.mpr ⟨pattern, hpattern, rfl⟩
  have hnone := List.findSome?_eq_none_iff.mp h pattern.cls hcls
  unfold ofClass? at hnone
  split at hnone
  next hzero => exact hclaim hzero
  next => cases hnone

/-- Every token of a source but the one that ends it is a text of a pattern of its kind. -/
theorem tokenize_matched {source file : String} {tokens : List Token}
    (h : tokenize source file = .ok tokens) {t : Token} (ht : t ∈ tokens) (hkind : t.kind ≠ .eof) :
    ∃ pattern ∈ Pattern.all, t.text.toList ∈ pattern.language ∧
      pattern.cls.kind t.text.toList = some t.kind := by
  obtain ⟨before, position, rfl, hbefore⟩ := Token.scan_lexemes
    (P := fun t => ∃ pattern ∈ Pattern.all, t.text.toList ∈ pattern.language ∧
      pattern.cls.kind t.text.toList = some t.kind)
    (fun text l offset t hfirst ht => by
      obtain ⟨kind, hl, rfl⟩ := Option.map_eq_some_iff.mp ht
      obtain ⟨pattern, hpattern, hmatch, hk⟩ := Lexeme.exists_pattern hfirst
      rw [String.toList_ofList]
      exact ⟨pattern, hpattern, hmatch, hk.symm.trans hl⟩)
    0 source.toList tokens h
  rcases List.mem_append.mp ht with ht | ht
  · exact hbefore t ht
  · rw [List.mem_singleton.mp ht] at hkind
    exact absurd rfl hkind

end CactLang
