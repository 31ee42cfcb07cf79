import CactLang.Proofs.Numerals
import CactLang.Proofs.Rescanning
import Mathlib.Algebra.Order.Field.Power
import Mathlib.Algebra.Order.Field.Rat
import Mathlib.Data.Nat.Log
import Mathlib.Tactic.FieldSimp
import Mathlib.Tactic.Linarith
import Mathlib.Tactic.NormNum
import Mathlib.Tactic.Positivity

/-!
# The values of floating literals

A literal with a point or an exponent stands for a rational number, whatever its length: its
digits, with the point among them, times the power of ten of its exponent. The running
definitions compare it with the bound of a type in integers, and reach no power of ten that is
out of proportion to the numbers compared.

> `Floating.value`: the number that the literal stands for.
> `Floating.counted`: the number that it is taken for, since an exponent that has reached
> `2 ^ 16` takes no more digits.

The two are compared with the bounds of `double` and `float` alike if the exponent is below
`10 * 2 ^ 16`, where no digit is left out, and if there are not more than some 65000 digits in
front of it, which the exponent outweighs either way (`IsOrdinary.counted_lt_iff`). Beyond both,
a literal that stands for next to nothing may be refused (`not_passes_zeros`).
-/

namespace CactLang

open Numeral (digitValue positional)
open Literal (Decimal)

namespace Numeral

/-! ## Positional values -/

/-- Digits in front count as many places more as there are digits behind them. -/
theorem positional_append (base : Nat) (a b : List Char) :
    positional base (a ++ b) = positional base a * base ^ b.length + positional base b := by
  induction a with
  | nil => simp [positional]
  | cons c a ih =>
    rw [List.cons_append, positional, positional, ih, List.length_append]
    ring

theorem digitValue_lt_of_isDigit {c : Char} (h : c.isDigit = true) : digitValue c < 10 := by
  have hall : "0123456789abcdefABCDEF".toList.all
      (fun c => !c.isDigit || decide (digitValue c < 10)) = true := by
    decide
  have hc := List.all_eq_true.mp hall c (mem_of_isHexDigit (isHexDigit_of_isDigit h))
  simpa [h] using hc

/-- Digits write a number below the power of ten of their count. -/
theorem positional_lt {digits : List Char} (h : ∀ c ∈ digits, c.isDigit = true) :
    positional 10 digits < 10 ^ digits.length := by
  induction digits with
  | nil => exact Nat.one_pos
  | cons c digits ih =>
    obtain ⟨hc, hdigits⟩ := List.forall_mem_cons.mp h
    have hc := digitValue_lt_of_isDigit hc
    calc digitValue c * 10 ^ digits.length + positional 10 digits
        < digitValue c * 10 ^ digits.length + 10 ^ digits.length :=
          Nat.add_lt_add_left (ih hdigits) _
      _ = (digitValue c + 1) * 10 ^ digits.length := by ring
      _ ≤ 10 * 10 ^ digits.length := Nat.mul_le_mul_right _ hc
      _ = 10 ^ (digits.length + 1) := by ring

/-- Decimal digits are read as the number they write. -/
theorem natural?_positional {digits : List Char} (h : ∀ c ∈ digits, c.isDigit = true)
    (hne : digits ≠ []) : Literal.natural? 10 digits = some (positional 10 digits) := by
  rw [natural?_eq (by omega) fun c hc => isHexDigit_of_isDigit (h c hc)]
  refine if_pos ?_
  rw [Bool.and_eq_true, List.all_eq_true]
  exact ⟨by simpa using hne, fun c hc => decide_eq_true (digitValue_lt_of_isDigit (h c hc))⟩

end Numeral

theorem Pattern.mem_digits {w : List Char} (hne : w ≠ []) (h : w.all Char.isDigit = true) :
    w ∈ digits :=
  mem_one_mul_many.mpr ⟨hne, List.all_eq_true.mp h⟩

/-! ## Exponents -/

/-- The exponent of a literal: its mark, perhaps a sign, and digits. -/
structure Exponent where
  mark : Char
  sign : Option Char
  digits : List Char
  mark_isExponentMark : Pattern.isExponentMark mark = true
  sign_isSign : ∀ c ∈ sign, Pattern.isSign c = true
  digits_mem : digits ∈ Pattern.digits

namespace Exponent

/-- The characters of an exponent, in their order. -/
def text (e : Exponent) : List Char :=
  e.mark :: (e.sign.toList ++ e.digits)

/-- The shortest beginning of a text with a property, or all of it if none has it. -/
def shortest (p : List Char → Bool) (text : List Char) : List Char :=
  (text.inits.find? p).getD text

/-- The digits that are counted: no more of them once their value is `2 ^ 16` or more. -/
def counted (e : Exponent) : List Char :=
  shortest (2 ^ 16 ≤ positional 10 ·) e.digits

/-- The exponent that some of the digits make. -/
def signed (e : Exponent) (digits : List Char) : ℤ :=
  if e.sign = some '-' then -(positional 10 digits : ℤ) else positional 10 digits

theorem mark_cases (e : Exponent) : e.mark = 'e' ∨ e.mark = 'E' := by
  simpa [Pattern.isExponentMark] using e.mark_isExponentMark

/-- The exponents of the language are those there are. -/
theorem mem_language_iff {w : List Char} : w ∈ Pattern.exponent ↔ ∃ e : Exponent, e.text = w := by
  constructor
  · intro hw
    obtain ⟨_, ⟨c, rfl, hc⟩, u, hu, rfl⟩ := Language.mem_mul.mp hw
    obtain ⟨s, hs, v, hv, rfl⟩ := Language.mem_mul.mp hu
    rcases hs with rfl | ⟨d, rfl, hd⟩
    · exact ⟨⟨c, none, v, hc, by simp, hv⟩, rfl⟩
    · exact ⟨⟨c, some d, v, hc, by simpa using hd, hv⟩, rfl⟩
  · rintro ⟨e, rfl⟩
    refine Language.append_mem_mul (a := [e.mark]) ⟨e.mark, rfl, e.mark_isExponentMark⟩
      (Language.append_mem_mul ?_ e.digits_mem)
    cases hsign : e.sign with
    | none => exact Or.inl rfl
    | some c => exact Or.inr ⟨c, rfl, e.sign_isSign c hsign⟩

/-- An exponent is read off its characters in one way. -/
theorem text_injective : Function.Injective text := by
  rintro ⟨m, s, ds, hm, hs, hds⟩ ⟨m', s', ds', hm', hs', hds'⟩ h
  obtain ⟨rfl, h⟩ := List.cons.inj h
  -- a sign is no digit, so that either both have one or none
  have hdigit : ∀ {ds rest : List Char} {c : Char}, ds ∈ Pattern.digits → ds = c :: rest →
      Pattern.isSign c ≠ true := by
    rintro _ rest c hds rfl hc
    have hdigit := (Pattern.mem_one_mul_many.mp hds).2 c List.mem_cons_self
    rw [Pattern.isSign_of_isDigit hdigit] at hc
    cases hc
  cases s with
  | none =>
    cases s' with
    | none =>
      obtain rfl : ds = ds' := h
      rfl
    | some c => exact absurd (hs' c rfl) (hdigit hds h)
  | some c =>
    cases s' with
    | none => exact absurd (hs c rfl) (hdigit hds' h.symm)
    | some c' =>
      obtain ⟨rfl, rfl⟩ := List.cons.inj h
      rfl

/-- No exponent is written with no characters, so leaving it out is told apart from all
of them. -/
theorem elim_injective :
    Function.Injective fun exponent : Option Exponent => exponent.elim [] text := by
  intro e e' h
  cases e with
  | none =>
    cases e' with
    | none => rfl
    | some e' => cases h
  | some e =>
    cases e' with
    | none => cases h
    | some e' => exact congrArg some (text_injective h)

/-! ### What is counted -/

theorem shortest_nil (p : List Char → Bool) : shortest p [] = [] := by
  cases h : p [] <;> simp [shortest, h]

/-- If already nothing will do, nothing is taken. -/
theorem shortest_of_nil {p : List Char → Bool} (h : p [] = true) (text : List Char) :
    shortest p text = [] := by
  cases text <;> simp [shortest, h]

/-- If nothing will not do, the first character is taken. -/
theorem shortest_cons {p : List Char → Bool} (h : p [] = false) (c : Char) (text : List Char) :
    shortest p (c :: text) = c :: shortest (fun first => p (c :: first)) text := by
  unfold shortest
  rw [List.inits_cons, List.find?_cons_of_neg (by simp [h]), List.find?_map]
  exact Option.getD_map (c :: ·) text _

/-- Either everything is taken, or what is taken will do and something is left. -/
theorem shortest_cases (p : List Char → Bool) (text : List Char) :
    shortest p text = text ∨
      p (shortest p text) = true ∧ ∃ c rest, text = shortest p text ++ c :: rest := by
  unfold shortest
  cases hfind : text.inits.find? p with
  | none => exact .inl rfl
  | some first =>
    obtain ⟨rest, hrest⟩ := (List.mem_inits first text).mp (List.mem_of_find?_eq_some hfind)
    cases rest with
    | nil => exact .inl (by simpa using hrest)
    | cons c rest => exact .inr ⟨List.find?_some hfind, c, rest, hrest.symm⟩

/-- Digits count as long as the value of those before them is below the limit. -/
theorem extendExponent?_eq {digits : List Char} (h : ∀ c ∈ digits, c.isDigit = true) (value : Nat) :
    ∃ first, first = shortest
        (fun first => Decimal.exponentLimit ≤ value * 10 ^ first.length + positional 10 first)
        digits ∧
      Decimal.extendExponent? value digits =
        some (value * 10 ^ first.length + positional 10 first) := by
  induction digits generalizing value with
  | nil => exact ⟨[], (shortest_nil _).symm, by simp [Decimal.extendExponent?, positional]⟩
  | cons c digits ih =>
    obtain ⟨hc, hdigits⟩ := List.forall_mem_cons.mp h
    have hdigit : Literal.digit? 10 c = some (digitValue c) := by
      rw [Numeral.digit?_eq (Numeral.isHexDigit_of_isDigit hc) (by omega)]
      exact if_pos (Numeral.digitValue_lt_of_isDigit hc)
    simp only [Decimal.extendExponent?, hdigit]
    by_cases hlt : value < Decimal.exponentLimit
    · -- the digit goes into the value, and the test is the same one for what follows
      have hstep : ∀ first : List Char,
          value * 10 ^ (c :: first).length + positional 10 (c :: first) =
            (value * 10 + digitValue c) * 10 ^ first.length + positional 10 first := by
        intro first
        rw [List.length_cons, positional]
        ring
      obtain ⟨first, hfirst, hextend⟩ := ih hdigits (value * 10 + digitValue c)
      refine ⟨c :: first, ?_, ?_⟩
      · rw [shortest_cons (by simpa [positional] using hlt), hfirst]
        simp only [hstep]
      · rw [if_pos hlt, hextend, hstep]
    · -- from here on the value stays, so that nothing more counts
      have hle : Decimal.exponentLimit ≤ value := Nat.le_of_not_lt hlt
      obtain ⟨first, hfirst, hextend⟩ := ih hdigits value
      rw [shortest_of_nil (by simpa [positional] using hle)] at hfirst
      subst hfirst
      refine ⟨[], ?_, by rw [if_neg hlt, hextend]⟩
      exact (shortest_of_nil (by simpa [positional] using hle) _).symm

/-- The size of an exponent is the number of those digits that are counted. -/
theorem exponentSize?_digits (e : Exponent) :
    Decimal.exponentSize? e.digits = some (positional 10 e.counted) := by
  obtain ⟨hne, hdigits⟩ := Pattern.mem_one_mul_many.mp e.digits_mem
  obtain ⟨first, hfirst, hextend⟩ := extendExponent?_eq hdigits 0
  have hcounted : first = e.counted := by
    simp only [Nat.zero_mul, Nat.zero_add] at hfirst
    exact hfirst
  cases hd : e.digits with
  | nil => exact absurd hd hne
  | cons c digits =>
    rw [Decimal.exponentSize?, ← hd, hextend, hcounted, Nat.zero_mul, Nat.zero_add]

/-- An exponent is read with its sign. -/
theorem exponent?_text (e : Exponent) :
    Decimal.exponent? e.text = some (e.signed e.counted) := by
  have hmark := e.mark_cases
  have hsize := e.exponentSize?_digits
  rw [text]
  cases hsign : e.sign with
  | none =>
    -- without a sign the first character is a digit, which cannot be taken for one
    obtain ⟨hne, hdigits⟩ := Pattern.mem_one_mul_many.mp e.digits_mem
    obtain ⟨c, digits, hcons⟩ := List.exists_cons_of_ne_nil hne
    have hc : c.isDigit = true := hdigits c (by rw [hcons]; exact List.mem_cons_self)
    have hplus := Pattern.ne_of_isDigit hc (d := '+') rfl
    have hminus := Pattern.ne_of_isDigit hc (d := '-') rfl
    rw [hcons] at hsize ⊢
    simp [Decimal.exponent?, Decimal.unsigned, hmark, hplus, hminus, hsize, signed, hsign]
  | some c =>
    have hc : c = '+' ∨ c = '-' := by
      simpa [Pattern.isSign] using e.sign_isSign c hsign
    rcases hc with rfl | rfl <;>
      simp [Decimal.exponent?, Decimal.unsigned, hmark, hsize, signed, hsign]

/-- Where digits are left out, those that are counted are many times less than all of them. -/
theorem counted_cases (e : Exponent) : e.counted = e.digits ∨
    2 ^ 16 ≤ positional 10 e.counted ∧
      10 * positional 10 e.counted ≤ positional 10 e.digits := by
  refine (shortest_cases _ e.digits).imp_right ?_
  rintro ⟨hreached, c, rest, hdigits⟩
  refine ⟨of_decide_eq_true hreached, ?_⟩
  calc 10 * positional 10 e.counted
      ≤ 10 ^ (c :: rest).length * positional 10 e.counted := by
        refine Nat.mul_le_mul_right _ ?_
        rw [List.length_cons, Nat.pow_succ]
        exact Nat.le_mul_of_pos_left 10 (Nat.pow_pos (by omega))
    _ ≤ positional 10 e.counted * 10 ^ (c :: rest).length + positional 10 (c :: rest) := by
        rw [Nat.mul_comm]
        exact Nat.le_add_right _ _
    _ = positional 10 e.digits := by
        rw [← Numeral.positional_append]
        exact congrArg (positional 10) hdigits.symm

/-- After the digits, neither a digit nor a point stands in front of an exponent. -/
theorem head_elim {exponent : Option Exponent} {c : Char}
    (h : (exponent.elim [] text).head? = some c) : c.isDigit = false ∧ c ≠ '.' := by
  cases exponent with
  | none => cases h
  | some e =>
    obtain rfl := Option.some.inj h
    rcases e.mark_cases with hmark | hmark <;> rw [hmark] <;> decide

end Exponent

/-! ## Comparisons -/

/-- Comparing by multiplying out is comparing as rational numbers. -/
theorem Literal.Decimal.isBelow_iff {d : Decimal} {bound : Nat} (hbound : 0 < bound) :
    d.isBelow bound = true ↔ (d.digits : ℚ) * 10 ^ d.exponent < bound := by
  obtain ⟨digits, exponent⟩ := d
  have hpow : ∀ e, 2 ^ e ≤ 10 ^ e := fun e => Nat.pow_le_pow_left (by omega) e
  cases exponent with
  | ofNat e =>
    have hiff : (digits : ℚ) * 10 ^ (Int.ofNat e) < bound ↔ digits * 10 ^ e < bound := by
      rw [Int.ofNat_eq_natCast, zpow_natCast]
      exact_mod_cast Iff.rfl
    rw [hiff]
    simp only [isBelow, Bool.or_eq_true, Bool.and_eq_true, decide_eq_true_eq, Nat.pow_eq]
    -- the test of the logarithm comes first only to keep the power small
    constructor
    · rintro (rfl | ⟨_, hlt⟩)
      · rwa [Nat.zero_mul]
      · exact hlt
    · intro hlt
      rcases Nat.eq_zero_or_pos digits with hzero | hpos
      · exact .inl hzero
      · refine .inr ⟨(Nat.le_log2 (Nat.ne_of_gt hbound)).mpr ?_, hlt⟩
        exact (hpow e).trans ((Nat.le_mul_of_pos_left _ hpos).trans hlt.le)
  | negSucc e =>
    have hiff : (digits : ℚ) * 10 ^ (Int.negSucc e) < bound ↔ digits < bound * 10 ^ (e + 1) := by
      rw [zpow_negSucc, ← div_eq_mul_inv, div_lt_iff₀ (by positivity)]
      exact_mod_cast Iff.rfl
    rw [hiff]
    simp only [isBelow, Bool.or_eq_true, decide_eq_true_eq, Nat.pow_eq]
    refine or_iff_right_of_imp fun hle => ?_
    calc digits < 2 ^ (digits.log2 + 1) := Nat.lt_log2_self
      _ ≤ 2 ^ (e + 1) := Nat.pow_le_pow_right (by omega) (by omega)
      _ ≤ 10 ^ (e + 1) := hpow (e + 1)
      _ ≤ bound * 10 ^ (e + 1) := Nat.le_mul_of_pos_left _ hbound

/-! ## Literals -/

/-- A literal with a point or an exponent: digits, perhaps a point and more digits, and perhaps
an exponent. -/
structure Floating where
  whole : List Char
  part : Option (List Char)
  exponent : Option Exponent
  whole_isDigit : ∀ c ∈ whole, c.isDigit = true
  part_isDigit : ∀ c ∈ part.getD [], c.isDigit = true
  someDigit : whole ++ part.getD [] ≠ []
  marked : part.isSome ∨ exponent.isSome

namespace Floating

/-- The point with the digits after it, and the exponent. -/
def rest (x : Floating) : List Char :=
  x.part.elim [] ('.' :: ·) ++ x.exponent.elim [] Exponent.text

/-- The characters of a literal, in their order. -/
def text (x : Floating) : List Char :=
  x.whole ++ x.rest

/-- The digits on both sides of the point. -/
def digits (x : Floating) : List Char :=
  x.whole ++ x.part.getD []

/-- The digits times the power of ten that an exponent and the point make. -/
def valueAt (x : Floating) (exponent : Exponent → ℤ) : ℚ :=
  (positional 10 x.whole + positional 10 (x.part.getD []) / 10 ^ (x.part.getD []).length) *
    10 ^ (x.exponent.elim 0 exponent)

/-- The number that the literal stands for. -/
def value (x : Floating) : ℚ :=
  x.valueAt fun e => e.signed e.digits

/-- The number that the literal is taken for. -/
def counted (x : Floating) : ℚ :=
  x.valueAt fun e => e.signed e.counted

/-- The literal of digits and an exponent, with no point. -/
def scaled {whole : List Char} (h : whole ∈ Pattern.digits) (e : Exponent) : Floating where
  whole := whole
  part := none
  exponent := some e
  whole_isDigit := (Pattern.mem_one_mul_many.mp h).2
  part_isDigit := List.forall_mem_nil _
  someDigit := List.append_ne_nil_of_left_ne_nil (Pattern.mem_one_mul_many.mp h).1 []
  marked := .inr rfl

/-- A literal without a point is its digits times a power of ten. -/
theorem valueAt_scaled {whole : List Char} (h : whole ∈ Pattern.digits) (e : Exponent)
    (exponent : Exponent → ℤ) :
    (scaled h e).valueAt exponent = positional 10 whole * 10 ^ exponent e := by
  simp [valueAt, scaled, positional]

/-- The literals of the language are those there are. -/
theorem mem_language_iff {w : List Char} : w ∈ Pattern.double ↔ ∃ x : Floating, x.text = w := by
  constructor
  · -- digits and a point in some order, or digits alone in front of an exponent
    have hexponent : ∀ {e : List Char}, e ∈ 1 + Pattern.exponent →
        ∃ exponent : Option Exponent, exponent.elim [] Exponent.text = e := by
      rintro e (rfl | he)
      · exact ⟨none, rfl⟩
      · obtain ⟨e, rfl⟩ := Exponent.mem_language_iff.mp he
        exact ⟨some e, rfl⟩
    rintro (h | h)
    · obtain ⟨u, hu, e, he, rfl⟩ := Language.mem_mul.mp h
      obtain ⟨exponent, rfl⟩ := hexponent he
      rcases hu with hu | hu
      · obtain ⟨whole, hwhole, v, hv, rfl⟩ := Language.mem_mul.mp hu
        obtain ⟨_, rfl, part, hpart, rfl⟩ := Language.mem_mul.mp hv
        obtain ⟨hne, hpart⟩ := Pattern.mem_one_mul_many.mp hpart
        exact ⟨⟨whole, some part, exponent, hwhole, hpart, by simp [hne], .inl rfl⟩,
          by simp [text, rest]⟩
      · obtain ⟨whole, hwhole, _, rfl, rfl⟩ := Language.mem_mul.mp hu
        obtain ⟨hne, hwhole⟩ := Pattern.mem_one_mul_many.mp hwhole
        exact ⟨⟨whole, some [], exponent, hwhole, by simp, by simp [hne], .inl rfl⟩,
          by simp [text, rest]⟩
    · obtain ⟨whole, hwhole, e, he, rfl⟩ := Language.mem_mul.mp h
      obtain ⟨hne, hwhole⟩ := Pattern.mem_one_mul_many.mp hwhole
      obtain ⟨e, rfl⟩ := Exponent.mem_language_iff.mp he
      exact ⟨⟨whole, none, some e, hwhole, by simp, by simp [hne], .inr rfl⟩, by simp [text, rest]⟩
  · rintro ⟨⟨whole, part, exponent, hwhole, hpart, hsome, hmarked⟩, rfl⟩
    cases part with
    | none =>
      obtain ⟨e, rfl⟩ := Option.isSome_iff_exists.mp (hmarked.resolve_left (by simp))
      refine .inr (Language.append_mem_mul ?_ (Exponent.mem_language_iff.mpr ⟨e, rfl⟩))
      exact Pattern.mem_one_mul_many.mpr ⟨by simpa using hsome, hwhole⟩
    | some part =>
      have hexponent : exponent.elim [] Exponent.text ∈ 1 + Pattern.exponent := by
        cases exponent with
        | none => exact .inl rfl
        | some e => exact .inr (Exponent.mem_language_iff.mpr ⟨e, rfl⟩)
      rw [text, rest, ← List.append_assoc]
      refine .inl (Language.append_mem_mul ?_ hexponent)
      cases part with
      | nil =>
        refine .inr (Language.append_mem_mul ?_ rfl)
        exact Pattern.mem_one_mul_many.mpr ⟨by simpa using hsome, hwhole⟩
      | cons c part =>
        refine .inl (Language.append_mem_mul hwhole (Language.append_mem_mul (a := ['.']) rfl ?_))
        exact Pattern.mem_one_mul_many.mpr ⟨by simp, hpart⟩

/-! ### How a literal is read -/

/-- The digits in front are taken off together. -/
theorem takeWhile_isDigit {ds rest : List Char} (hds : ∀ c ∈ ds, c.isDigit = true)
    (hrest : ∀ c, rest.head? = some c → c.isDigit = false) :
    (ds ++ rest).takeWhile Char.isDigit = ds ∧ (ds ++ rest).dropWhile Char.isDigit = rest := by
  rw [List.takeWhile_append_of_pos hds, List.dropWhile_append_of_pos hds]
  cases rest with
  | nil => simp
  | cons c rest => simp [hrest c rfl]

/-- No sign stands in front. -/
theorem unsigned_text (x : Floating) : Decimal.unsigned x.text = x.text := by
  obtain ⟨c, rest, htext, hc⟩ : ∃ c rest, x.text = c :: rest ∧ (c.isDigit = true ∨ c = '.') := by
    cases hwhole : x.whole with
    | cons c whole =>
      have hc := x.whole_isDigit c (by rw [hwhole]; exact List.mem_cons_self)
      exact ⟨c, _, by rw [text, hwhole]; rfl, .inl hc⟩
    | nil =>
      cases hpart : x.part with
      | none => exact absurd (by rw [hwhole, hpart]; rfl) x.someDigit
      | some part => exact ⟨'.', _, by rw [text, rest, hwhole, hpart]; rfl, .inr rfl⟩
  rw [htext, Decimal.unsigned]
  refine if_neg ?_
  rcases hc with hc | rfl
  · exact not_or.mpr ⟨Pattern.ne_of_isDigit hc rfl, Pattern.ne_of_isDigit hc rfl⟩
  · decide

/-- What follows the digits in front is no digit. -/
theorem head_rest {x : Floating} {c : Char} (h : x.rest.head? = some c) : c.isDigit = false := by
  rw [rest] at h
  cases hpart : x.part with
  | none =>
    rw [hpart] at h
    exact (Exponent.head_elim h).1
  | some part =>
    rw [hpart] at h
    obtain rfl := Option.some.inj h
    rfl

/-- A point follows the digits in front if there is a fraction. -/
theorem isSome_part_iff (x : Floating) : x.part.isSome = true ↔ x.rest.head? = some '.' := by
  rw [rest]
  cases x.part with
  | some part => exact iff_of_true rfl rfl
  | none => exact iff_of_false Bool.false_ne_true fun h => (Exponent.head_elim h).2 rfl

theorem takeWhile_text (x : Floating) :
    x.text.takeWhile Char.isDigit = x.whole ∧ x.text.dropWhile Char.isDigit = x.rest :=
  takeWhile_isDigit x.whole_isDigit fun _ => head_rest

/-- The fraction and the exponent are taken apart where the digits end. -/
theorem fraction_rest (x : Floating) :
    Decimal.fraction x.rest = (x.part.getD [], x.exponent.elim [] Exponent.text) := by
  rw [rest]
  cases hpart : x.part with
  | some part =>
    -- an exponent starts with a mark, so the digits end where the part ends
    have hdigits : ∀ c ∈ part, c.isDigit = true := by
      have h := x.part_isDigit
      rwa [hpart] at h
    obtain ⟨htake, hdrop⟩ := takeWhile_isDigit hdigits fun _ hc =>
      (@Exponent.head_elim x.exponent _ hc).1
    simp [Decimal.fraction, htake, hdrop]
  | none =>
    show Decimal.fraction (x.exponent.elim [] Exponent.text) = _
    unfold Decimal.fraction
    split
    next heq => exact absurd rfl (Exponent.head_elim (congrArg List.head? heq)).2
    next => rfl

/-- A literal is read off its characters in one way. -/
theorem text_injective : Function.Injective text := by
  intro x y h
  obtain ⟨hwhole, hrest⟩ := x.takeWhile_text
  rw [h, y.takeWhile_text.1] at hwhole
  rw [h, y.takeWhile_text.2] at hrest
  have hfraction := congrArg Decimal.fraction hrest
  rw [fraction_rest, fraction_rest] at hfraction
  obtain ⟨hdigits, hexponent⟩ := Prod.mk.inj hfraction
  have hsome : x.part.isSome = y.part.isSome := by
    rw [Bool.eq_iff_iff, isSome_part_iff, isSome_part_iff, hrest]
  have hpart : x.part = y.part := by
    cases hx : x.part <;> cases hy : y.part <;> simp_all
  obtain ⟨w, p, e, _, _, _, _⟩ := x
  obtain ⟨w', p', e', _, _, _, _⟩ := y
  obtain rfl : w' = w := hwhole
  obtain rfl : p = p' := hpart
  obtain rfl : e' = e := Exponent.elim_injective hexponent
  rfl

theorem isDigit (x : Floating) : ∀ c ∈ x.digits, c.isDigit = true :=
  List.forall_mem_append.mpr ⟨x.whole_isDigit, x.part_isDigit⟩

/-- A literal is read as all of its digits, scaled by what is counted of its exponent and by the
length of its fraction. -/
theorem ofText?_text (x : Floating) : Decimal.ofText? x.text = some
    ⟨positional 10 x.digits, x.exponent.elim 0 (fun e => e.signed e.counted) -
      (x.part.getD []).length⟩ := by
  obtain ⟨htake, hdrop⟩ := x.takeWhile_text
  have hdigits : Literal.natural? 10 (x.whole ++ x.part.getD []) = some (positional 10 x.digits) :=
    Numeral.natural?_positional x.isDigit x.someDigit
  have hexponent : Decimal.exponent? (x.exponent.elim [] Exponent.text) =
      some (x.exponent.elim 0 fun e => e.signed e.counted) := by
    cases x.exponent with
    | none => rfl
    | some e => exact e.exponent?_text
  rw [Decimal.ofText?, x.unsigned_text]
  simp only [htake, hdrop, fraction_rest, hdigits, hexponent]
  rfl

/-- Both the digits and the point as one power of ten. -/
theorem valueAt_eq (x : Floating) (exponent : Exponent → ℤ) :
    x.valueAt exponent =
      positional 10 x.digits * 10 ^ (x.exponent.elim 0 exponent - (x.part.getD []).length) := by
  rw [valueAt, digits, Numeral.positional_append, zpow_sub₀ (by norm_num), zpow_natCast]
  push_cast
  field_simp

/-- The comparison with a bound is the one of the value that is counted. -/
theorem denotesBelow_text (x : Floating) {bound : Nat} (hbound : 0 < bound) :
    Literal.denotesBelow bound x.text = true ↔ x.counted < bound := by
  rw [Literal.denotesBelow, x.ofText?_text, counted, valueAt_eq]
  exact Decimal.isBelow_iff hbound

/-! ### Where all digits count -/

/-- The literal has an exponent below `10 * 2 ^ 16`, or few enough digits in front of it for
the exponent alone to decide. -/
def IsOrdinary (x : Floating) : Prop :=
  (∀ e ∈ x.exponent, positional 10 e.digits < 10 * 2 ^ 16) ∨ x.digits.length + 309 ≤ 2 ^ 16

/-- The fraction is among the digits. -/
theorem length_part_le (x : Floating) : (x.part.getD []).length ≤ x.digits.length := by
  rw [digits, List.length_append]
  exact Nat.le_add_left _ _

/-- An exponent that is far below zero outweighs the digits. -/
theorem valueAt_lt_one {x : Floating} (h : x.digits.length ≤ 2 ^ 16) {exponent : Exponent → ℤ}
    (hfar : x.exponent.elim 0 exponent ≤ -2 ^ 16) : x.valueAt exponent < 1 := by
  have hlt : (positional 10 x.digits : ℚ) < 10 ^ (x.digits.length : ℤ) := by
    rw [zpow_natCast]
    exact_mod_cast Numeral.positional_lt x.isDigit
  calc x.valueAt exponent
      = positional 10 x.digits * 10 ^ (x.exponent.elim 0 exponent - (x.part.getD []).length) :=
        x.valueAt_eq exponent
    _ < 10 ^ (x.digits.length : ℤ) *
          10 ^ (x.exponent.elim 0 exponent - (x.part.getD []).length) := by gcongr
    _ = 10 ^ (x.digits.length + (x.exponent.elim 0 exponent - (x.part.getD []).length)) :=
        (zpow_add₀ (by norm_num) _ _).symm
    _ ≤ 10 ^ (0 : ℤ) := zpow_le_zpow_right₀ (by norm_num) (by omega)
    _ = 1 := zpow_zero 10

/-- An exponent that is far above zero makes any digits but zeros too large. -/
theorem le_valueAt {x : Floating} (h : x.digits.length + 309 ≤ 2 ^ 16)
    (hne : positional 10 x.digits ≠ 0) {exponent : Exponent → ℤ}
    (hfar : 2 ^ 16 ≤ x.exponent.elim 0 exponent) : 10 ^ 309 ≤ x.valueAt exponent := by
  have hpart := x.length_part_le
  have hone : (1 : ℚ) ≤ positional 10 x.digits := by
    exact_mod_cast Nat.one_le_iff_ne_zero.mpr hne
  calc (10 : ℚ) ^ 309 = 10 ^ (309 : ℤ) := (zpow_ofNat 10 309).symm
    _ ≤ 10 ^ (x.exponent.elim 0 exponent - (x.part.getD []).length) :=
        zpow_le_zpow_right₀ (by norm_num) (by omega)
    _ ≤ positional 10 x.digits * 10 ^ (x.exponent.elim 0 exponent - (x.part.getD []).length) :=
        le_mul_of_one_le_left (by positivity) hone
    _ = x.valueAt exponent := (x.valueAt_eq exponent).symm

/-- A short exponent is counted in full. -/
theorem counted_eq_value {x : Floating}
    (h : ∀ e ∈ x.exponent, positional 10 e.digits < 10 * 2 ^ 16) : x.counted = x.value := by
  rw [counted, value, valueAt, valueAt]
  cases hexponent : x.exponent with
  | none => rfl
  | some e =>
    have hall : e.counted = e.digits := by
      refine e.counted_cases.resolve_right fun hcut => ?_
      have hlt := h e hexponent
      omega
    simp only [Option.elim_some, hall]

/-- Between `1` and `10 ^ 309` the digits that are left out make no difference. -/
theorem IsOrdinary.counted_lt_iff {x : Floating} (h : x.IsOrdinary) {bound : ℚ}
    (hlow : 1 ≤ bound) (hhigh : bound ≤ 10 ^ 309) : x.counted < bound ↔ x.value < bound := by
  rcases h with h | h
  · rw [counted_eq_value h]
  cases hexponent : x.exponent with
  | none => rw [counted_eq_value (by simp [hexponent])]
  | some e =>
    rcases e.counted_cases with hall | ⟨hreached, hle⟩
    · simp only [counted, value, valueAt, hexponent, Option.elim_some, hall]
    -- both exponents are so far from zero that the digits in front do not matter
    by_cases hsign : e.sign = some '-'
    · have hbelow : ∀ digits : Exponent → List Char, 2 ^ 16 ≤ positional 10 (digits e) →
          x.valueAt (fun e => e.signed (digits e)) < bound := by
        intro digits hdigits
        refine lt_of_lt_of_le (valueAt_lt_one (by omega) ?_) hlow
        rw [hexponent, Option.elim_some, Exponent.signed, if_pos hsign]
        omega
      exact iff_of_true (hbelow Exponent.counted hreached) (hbelow Exponent.digits (by omega))
    · by_cases hzero : positional 10 x.digits = 0
      · rw [counted, value, valueAt_eq, valueAt_eq, hzero, Nat.cast_zero, zero_mul, zero_mul]
      · have habove : ∀ digits : Exponent → List Char, 2 ^ 16 ≤ positional 10 (digits e) →
            ¬x.valueAt (fun e => e.signed (digits e)) < bound := by
          intro digits hdigits
          refine not_lt.mpr (hhigh.trans (le_valueAt h hzero ?_))
          rw [hexponent, Option.elim_some, Exponent.signed, if_neg hsign]
          omega
        exact iff_of_false (habove Exponent.counted hreached) (habove Exponent.digits (by omega))

end Floating

/-! ## The literals of a source -/

/-- The text is that of a token of some source. -/
def TokenKind.HasText (kind : TokenKind) (text : String) : Prop :=
  ∃ source file tokens, tokenize source file = .ok tokens ∧
    ∃ t ∈ tokens, t.kind = kind ∧ t.text = text

/-- The texts of a kind of token are the words of the languages that give this kind. -/
theorem TokenKind.hasText_iff {kind : TokenKind} (hkind : kind ≠ .eof) {text : String} :
    kind.HasText text ↔ ∃ sort ∈ LexemeSort.all,
      text.toList ∈ sort.language ∧ sort.kind text.toList = some kind := by
  constructor
  · rintro ⟨source, file, tokens, htokens, t, ht, rfl, rfl⟩
    obtain ⟨before, position, rfl, hlexes⟩ := Token.lexes_of_tokenize htokens
    rcases List.mem_append.mp ht with ht | ht
    · exact hlexes t ht
    · obtain rfl := List.mem_singleton.mp ht
      exact absurd rfl hkind
  · intro hlexes
    have hlexes : Token.Lexes ⟨kind, text, .ofBytes "" 0 0⟩ := hlexes
    have hend : ∀ c, ([] : List Char).head? = some c → Text.isBlank c = true := by simp
    obtain ⟨t, ⟨hkind, htext⟩, hscan⟩ := hlexes.scan_append "" 0 hend
    rw [List.append_nil, Token.scan] at hscan
    exact ⟨text, "", _, hscan, t, List.mem_cons_self, hkind, htext⟩

/-- The texts of a kind that only one sort of lexeme has are the lexemes of that sort. -/
theorem TokenKind.hasText_iff_mem {kind : TokenKind} (hkind : kind ≠ .eof) {sort : LexemeSort}
    (hsort : sort ∈ LexemeSort.all) (hhas : ∀ w, sort.kind w = some kind)
    (honly : ∀ sort' ∈ LexemeSort.all, ∀ w, sort'.kind w = some kind → sort' = sort)
    {text : String} : kind.HasText text ↔ text.toList ∈ sort.language := by
  rw [hasText_iff hkind]
  constructor
  · rintro ⟨sort', hsort', hw, hkind'⟩
    rwa [honly sort' hsort' _ hkind'] at hw
  · exact fun hw => ⟨sort, hsort, hw, hhas _⟩

theorem TokenKind.isNumber_ofWord (word : String) : (ofWord word).isNumber = false := by
  unfold ofWord ofReserved?
  cases h : reserved.lookup word with
  | none => rfl
  | some k =>
    have hall : ∀ p ∈ reserved, p.2.isNumber = false := by decide
    obtain ⟨before, after, hsplit, _⟩ := List.lookup_eq_some_iff.mp h
    exact hall (word, k) (by rw [hsplit]; simp)

/-- Neither words nor symbols make numbers. -/
theorem LexemeSort.isNumber_cases {sort : LexemeSort} (hsort : sort ∈ all) {w : List Char}
    {kind : TokenKind} (hkind : sort.kind w = some kind) (hnumber : kind.isNumber = true) :
    sort = float ∧ kind = .floatLiteral ∨ sort = double ∧ kind = .doubleLiteral ∨
      kind = .integerLiteral := by
  cases sort with
  | word =>
    obtain rfl := Option.some.inj hkind
    rw [TokenKind.isNumber_ofWord] at hnumber
    cases hnumber
  | symbol text kind' =>
    have hall : ∀ row ∈ symbols, row.kind.isNumber = false := by decide
    obtain rfl := Option.some.inj hkind
    obtain ⟨row, hrow, _, rfl⟩ := symbol_mem_all hsort
    rw [hall row hrow] at hnumber
    cases hnumber
  | float => exact .inl ⟨rfl, (Option.some.inj hkind).symm⟩
  | double => exact .inr (.inl ⟨rfl, (Option.some.inj hkind).symm⟩)
  | hexadecimal => exact .inr (.inr (Option.some.inj hkind).symm)
  | digits => exact .inr (.inr (Option.some.inj hkind).symm)
  | blanks => cases hkind
  | lineComment => cases hkind
  | blockComment => cases hkind

namespace Floating

/-- The texts of double literals are those of floating literals. -/
theorem hasText_double {text : String} : TokenKind.doubleLiteral.HasText text ↔
    ∃ x : Floating, text = String.ofList x.text := by
  have hdouble : LexemeSort.double ∈ LexemeSort.all := by simp [LexemeSort.all]
  have hmem : TokenKind.doubleLiteral.HasText text ↔ text.toList ∈ Pattern.double := by
    refine TokenKind.hasText_iff_mem (by decide) hdouble (fun _ => rfl) fun sort hsort w hkind => ?_
    rcases LexemeSort.isNumber_cases hsort hkind rfl with ⟨_, h⟩ | ⟨h, _⟩ | h
    · cases h
    · exact h
    · cases h
  rw [hmem, mem_language_iff]
  exact exists_congr fun x => by rw [eq_comm, ← String.toList_inj, String.toList_ofList]

/-- The texts of float literals have a mark behind. -/
theorem hasText_float {text : String} : TokenKind.floatLiteral.HasText text ↔
    ∃ (x : Floating) (c : Char), Pattern.isFloatMark c = true ∧
      text = String.ofList (x.text ++ [c]) := by
  have hfloat : LexemeSort.float ∈ LexemeSort.all := by simp [LexemeSort.all]
  -- the other sort of tokens of this kind would be a double without a mark
  have hmem : TokenKind.floatLiteral.HasText text ↔ text.toList ∈ Pattern.float := by
    refine TokenKind.hasText_iff_mem (by decide) hfloat (fun _ => rfl) fun sort hsort w hkind => ?_
    rcases LexemeSort.isNumber_cases hsort hkind rfl with ⟨h, _⟩ | ⟨_, h⟩ | h
    · exact h
    · cases h
    · cases h
  rw [hmem]
  constructor
  · intro hw
    obtain ⟨w, hw, _, ⟨c, rfl, hc⟩, htext⟩ := Language.mem_mul.mp hw
    obtain ⟨x, rfl⟩ := mem_language_iff.mp hw
    exact ⟨x, c, hc, by rw [htext, String.ofList_toList]⟩
  · rintro ⟨x, c, hc, rfl⟩
    rw [String.toList_ofList]
    exact Language.append_mem_mul (mem_language_iff.mpr ⟨x, rfl⟩) ⟨c, rfl, hc⟩

/-- The mark of a float, and nothing else, is no part of the number. -/
theorem withoutSuffix_text (x : Floating) {c : Char} (hc : Pattern.isFloatMark c = true) :
    Literal.withoutSuffix (x.text ++ [c]) = x.text := by
  have hover := Pattern.double_over x.text (mem_language_iff.mpr ⟨x, rfl⟩)
  show ((x.text ++ [c]).reverse.dropWhile Pattern.isFloatMark).reverse = x.text
  rw [List.reverse_concat, List.dropWhile_cons_of_pos hc]
  have hstop : x.text.reverse.dropWhile Pattern.isFloatMark = x.text.reverse := by
    cases htext : x.text.reverse with
    | nil => rfl
    | cons d rest =>
      refine List.dropWhile_cons_of_neg (ne_true_of_eq_false (hover d ?_))
      rw [← List.mem_reverse, htext]
      exact List.mem_cons_self
  rw [hstop, List.reverse_reverse]

end Floating

namespace Typing

/-! ## Bounds -/

/-- Different powers of two are one apart at least. -/
theorem one_le_difference {m n : Nat} (h : n < m) : (1 : ℚ) ≤ 2 ^ m - 2 ^ n := by
  have hlt : 2 ^ n < 2 ^ m := Nat.pow_lt_pow_right (by omega) h
  have hle : (2 : ℚ) ^ n + 1 ≤ 2 ^ m := by exact_mod_cast hlt
  linarith

/-- Every bound is small against a power of ten, so the exact value of a literal with a huge
exponent is above it. -/
theorem difference_le {m : Nat} (h : m ≤ 1024) (n : Nat) : (2 : ℚ) ^ m - 2 ^ n ≤ 10 ^ 309 := by
  have hpow : 2 ^ m ≤ 10 ^ 309 :=
    calc 2 ^ m ≤ 2 ^ 1024 := Nat.pow_le_pow_right Nat.two_pos h
      _ ≤ 10 ^ 309 := by decide +kernel
  have hcast : (2 : ℚ) ^ m ≤ 10 ^ 309 := by exact_mod_cast hpow
  exact (sub_le_self _ (by positivity)).trans hcast

/-- The bound as a rational number. The smaller power is taken away without being cut off. -/
theorem cast_difference {m n : Nat} (h : n < m) :
    ((Nat.pow 2 m - Nat.pow 2 n : Nat) : ℚ) = 2 ^ m - 2 ^ n := by
  have hle : 2 ^ n ≤ 2 ^ m := Nat.pow_le_pow_right (by omega) h.le
  rw [Nat.pow_eq, Nat.pow_eq, Nat.cast_sub hle, Nat.cast_pow, Nat.cast_pow, Nat.cast_ofNat]

theorem cast_doubleBound : (Literal.doubleBound : ℚ) = 2 ^ 1024 - 2 ^ 970 := by
  unfold Literal.doubleBound
  -- the powers are of variables, so that nothing computes them
  generalize hm : 1024 = m
  generalize hn : 970 = n
  exact cast_difference (by omega)

theorem cast_floatBound : (Literal.floatBound : ℚ) = 2 ^ 128 - 2 ^ 103 := by
  rw [Literal.floatBound, cast_difference (by omega)]

/-- A literal is below a bound if the value that is counted is. -/
theorem denotesBelow_difference (x : Floating) {m n bound : Nat} (h : n < m)
    (hbound : (bound : ℚ) = 2 ^ m - 2 ^ n) :
    Literal.denotesBelow bound x.text = true ↔ x.counted < 2 ^ m - 2 ^ n := by
  have hone := one_le_difference h
  rw [← hbound] at hone ⊢
  exact x.denotesBelow_text (by exact_mod_cast hone)

/-- A double literal is good if the value that is counted is below the bound of doubles. -/
theorem isLiteral_double (x : Floating) (negated : Bool) :
    isLiteral .double negated x.text = true ↔ x.counted < 2 ^ 1024 - 2 ^ 970 := by
  rw [isLiteral]
  exact denotesBelow_difference x (by omega) cast_doubleBound

/-- A float literal is good if the value that is counted is below the bound of floats. Its mark
does not count. -/
theorem isLiteral_float (x : Floating) {c : Char} (hc : Pattern.isFloatMark c = true)
    (negated : Bool) :
    isLiteral .float negated (x.text ++ [c]) = true ↔ x.counted < 2 ^ 128 - 2 ^ 103 := by
  rw [isLiteral, x.withoutSuffix_text hc]
  exact denotesBelow_difference x (by omega) cast_floatBound

/-- The checker has a type for the expression. -/
def Passes (r : Registry) (scope : ScopeId) (negated : Bool) (e : Expr) : Prop :=
  ∃ result, checkExpr r scope negated e = .ok result

section

variable {r : Registry} {scope : ScopeId} {negated : Bool} {id : NodeId} {span : Span}
  {info : Option ExprInfo}

/-- A number passes if its text is a good literal. -/
theorem passes_number {text : List Char} {kind : NumberKind} :
    Passes r scope negated ⟨id, .number (String.ofList text) kind, span, info⟩ ↔
      isLiteral kind negated text = true := by
  constructor
  · rintro ⟨⟨e', i⟩, hok⟩
    have hliteral := (checkExpr_number_ok.mp hok).1
    rwa [String.toList_ofList] at hliteral
  · intro hliteral
    rw [← String.toList_ofList (l := text)] at hliteral
    exact ⟨_, checkExpr_number_ok.mpr ⟨hliteral, rfl, rfl⟩⟩

end

/-- **A floating literal is judged by the number it stands for.** The texts of doubles in a
source are those of literals, and the texts of floats are these with a mark, and a text is that
of one literal only. No literal is refused for its form: as a double it passes if and only if the
number it is taken for is below `2 ^ 1024 - 2 ^ 970`, and as a float below `2 ^ 128 - 2 ^ 103`.
For all literals but those with an exponent of `655360` or more and at the same time more than
`65227` digits in front of it, this is to say that the number it stands for is. -/
theorem floating_judged_by_value (r : Registry) (scope : ScopeId) (negated : Bool) (id : NodeId)
    (span : Span) (info : Option ExprInfo) :
    (∀ text, TokenKind.doubleLiteral.HasText text ↔
      ∃ x : Floating, text = String.ofList x.text) ∧
    (∀ text, TokenKind.floatLiteral.HasText text ↔
      ∃ (x : Floating) (c : Char), Pattern.isFloatMark c = true ∧
        text = String.ofList (x.text ++ [c])) ∧
    Function.Injective Floating.text ∧
    ∀ x : Floating,
      (Passes r scope negated ⟨id, .number (String.ofList x.text) .double, span, info⟩ ↔
        x.counted < 2 ^ 1024 - 2 ^ 970) ∧
      (∀ c, Pattern.isFloatMark c = true →
        (Passes r scope negated ⟨id, .number (String.ofList (x.text ++ [c])) .float, span, info⟩ ↔
          x.counted < 2 ^ 128 - 2 ^ 103)) ∧
      (x.IsOrdinary →
        (Passes r scope negated ⟨id, .number (String.ofList x.text) .double, span, info⟩ ↔
          x.value < 2 ^ 1024 - 2 ^ 970) ∧
        ∀ c, Pattern.isFloatMark c = true →
          (Passes r scope negated
              ⟨id, .number (String.ofList (x.text ++ [c])) .float, span, info⟩ ↔
            x.value < 2 ^ 128 - 2 ^ 103)) := by
  refine ⟨fun _ => Floating.hasText_double, fun _ => Floating.hasText_float,
    Floating.text_injective, fun x => ⟨?_, fun c hc => ?_, fun hx => ⟨?_, fun c hc => ?_⟩⟩⟩
  · rw [passes_number, isLiteral_double]
  · rw [passes_number, isLiteral_float x hc]
  · rw [passes_number, isLiteral_double]
    exact hx.counted_lt_iff (one_le_difference (by omega)) (difference_le (by omega) 970)
  · rw [passes_number, isLiteral_float x hc]
    exact hx.counted_lt_iff (one_le_difference (by omega)) (difference_le (by omega) 103)

/-- Exponents of any size: zero times a power of ten is zero, and a number may be as small as it
likes. -/
theorem floating_judged_by_value_extremes :
    TokenKind.doubleLiteral.HasText "0e999999999999" ∧
    Passes (start true).registry ⟨0⟩ false
      ⟨⟨1⟩, .number "0e999999999999" .double, .ofBytes "shell" 11 16, none⟩ ∧
    TokenKind.floatLiteral.HasText "1e-999999999999f" ∧
    Passes (start true).registry ⟨0⟩ false
      ⟨⟨1⟩, .number "1e-999999999999f" .float, .ofBytes "shell" 11 16, none⟩ := by
  have hdigit : ∀ c : Char, c.isDigit = true → [c] ∈ Pattern.digits := fun c hc =>
    Pattern.mem_digits (by simp) (by simpa using hc)
  have hdigits : "999999999999".toList ∈ Pattern.digits :=
    Pattern.mem_digits (by simp) (by decide)
  have hsize : positional 10 "999999999999".toList = 999999999999 := by decide +kernel
  let zero := Floating.scaled (hdigit '0' rfl) ⟨'e', none, _, rfl, by simp, hdigits⟩
  let one := Floating.scaled (hdigit '1' rfl)
    ⟨'e', some '-', _, rfl, by simp [Pattern.isSign], hdigits⟩
  -- neither literal needs its exponent: a zero stays zero, and one scaled down stays below one
  have hzero : zero.value < 1 := by
    rw [Floating.value, Floating.valueAt_scaled]
    simp [positional, digitValue]
  have hone : one.value < 1 := by
    refine Floating.valueAt_lt_one (by simp [one, Floating.digits, Floating.scaled]) ?_
    show -(positional 10 "999999999999".toList : ℤ) ≤ -2 ^ 16
    rw [hsize]
    norm_num
  obtain ⟨hdouble, hfloat, _, hjudged⟩ := floating_judged_by_value (start true).registry ⟨0⟩ false
    ⟨1⟩ (.ofBytes "shell" 11 16) none
  have hordinary : zero.IsOrdinary ∧ one.IsOrdinary := by
    refine ⟨.inr ?_, .inr ?_⟩ <;> simp [zero, one, Floating.digits, Floating.scaled]
  refine ⟨(hdouble _).mpr ⟨zero, rfl⟩, ?_, (hfloat _).mpr ⟨one, 'f', rfl, rfl⟩, ?_⟩
  · exact ((hjudged zero).2.2 hordinary.1).1.mpr (hzero.trans_le (one_le_difference (by omega)))
  · exact ((hjudged one).2.2 hordinary.2).2 'f' rfl |>.mpr
      (hone.trans_le (one_le_difference (by omega)))

theorem positional_one_zeros (n : Nat) :
    positional 10 ('1' :: List.replicate n '0') = 10 ^ n := by
  have hzeros : positional 10 (List.replicate n '0') = 0 := by
    induction n with
    | zero => rfl
    | succ n ih => simp [List.replicate_succ, positional, digitValue, ih]
  rw [positional, hzeros, List.length_replicate]
  simp [digitValue]

/-- With enough zeros in front, an exponent of which the last digit is not counted is taken to
leave a number out of range where it leaves one that is below `1`. -/
theorem not_passes_zeros {n : Nat} (hlow : 2 ^ 16 + 309 ≤ n) (hhigh : n < 655360) (r : Registry)
    (scope : ScopeId) (negated : Bool) (id : NodeId) (span : Span) (info : Option ExprInfo) :
    ∃ x : Floating, x.text = '1' :: (List.replicate n '0' ++ "e-655360".toList) ∧ x.value < 1 ∧
      ¬Passes r scope negated ⟨id, .number (String.ofList x.text) .double, span, info⟩ := by
  have hwhole : '1' :: List.replicate n '0' ∈ Pattern.digits :=
    Pattern.mem_digits (by simp) (by simp)
  have hdigits : "655360".toList ∈ Pattern.digits := Pattern.mem_digits (by simp) (by decide)
  have hsize : positional 10 "655360".toList = 655360 := by decide +kernel
  -- the digits of the exponent after the first five do not count
  have hcounted :
      positional 10 (Exponent.shortest (2 ^ 16 ≤ positional 10 ·) "655360".toList) = 65536 := by
    decide +kernel
  let e : Exponent := ⟨'e', some '-', _, rfl, by simp [Pattern.isSign], hdigits⟩
  let x := Floating.scaled hwhole e
  -- one and `n` zeros are a power of ten, whichever exponent is put to it
  have hpower : ∀ exponent : Exponent → ℤ, x.valueAt exponent = 10 ^ (n + exponent e) := by
    intro exponent
    rw [Floating.valueAt_scaled, positional_one_zeros, zpow_add₀ (by norm_num), zpow_natCast,
      Nat.cast_pow, Nat.cast_ofNat]
  have hvalue : x.value = 10 ^ (n - 655360 : ℤ) := by
    refine (hpower _).trans ?_
    show (10 : ℚ) ^ ((n : ℤ) + -(positional 10 "655360".toList : ℤ)) = _
    rw [hsize]
    rfl
  have htaken : x.counted = 10 ^ (n - 65536 : ℤ) := by
    refine (hpower _).trans ?_
    show (10 : ℚ) ^ ((n : ℤ) + -(positional 10 (Exponent.shortest _ "655360".toList) : ℤ)) = _
    rw [hcounted]
    rfl
  refine ⟨x, rfl, ?_, ?_⟩
  · rw [hvalue]
    exact zpow_lt_one_of_neg₀ (by norm_num) (by omega)
  · rw [passes_number, isLiteral_double, htaken, not_lt]
    calc (2 : ℚ) ^ 1024 - 2 ^ 970 ≤ 10 ^ 309 := difference_le (by omega) 970
      _ = 10 ^ (309 : ℤ) := (zpow_ofNat 10 309).symm
      _ ≤ 10 ^ (n - 65536 : ℤ) := zpow_le_zpow_right₀ (by norm_num) (by omega)

/-- A literal of a source that stands for `10 ^ -589360` and is refused, since it is taken for
`10 ^ 464`. -/
theorem floating_refused_in_range : ∃ x : Floating,
    x.text = '1' :: (List.replicate 66000 '0' ++ "e-655360".toList) ∧
    TokenKind.doubleLiteral.HasText (String.ofList x.text) ∧
    x.value < 2 ^ 1024 - 2 ^ 970 ∧
    ¬Passes (start true).registry ⟨0⟩ false
      ⟨⟨1⟩, .number (String.ofList x.text) .double, .ofBytes "shell" 11 66009, none⟩ := by
  obtain ⟨x, htext, hvalue, hrefused⟩ := @not_passes_zeros 66000 (by omega) (by omega)
    (start true).registry ⟨0⟩ false ⟨1⟩ (.ofBytes "shell" 11 66009) none
  exact ⟨x, htext, Floating.hasText_double.mpr ⟨x, rfl⟩,
    hvalue.trans_le (one_le_difference (by omega)), hrefused⟩

end Typing

end CactLang
