import CactLang.Proofs.Literals
import CactLang.Proofs.Safety
import Mathlib.Tactic.IntervalCases

/-!
# The values of integer literals

An integer literal stands for a natural number, whatever its length: the positional value of
its digits in base sixteen, eight or ten. The running definitions reach it from the left, in
64-bit words, and with signs that no literal has.

> `Numeral.value?`: the value, as a sum of digits times powers of the base.

Both uses of a literal are judged by this value alone. As an expression it is at most
`2 ^ 31 - 1`, or `2 ^ 31` after a minus sign; as a dimension it is from `1` up to
`2 ^ 32 - 1`. Since both limits lie far below those of a word, it makes no difference that
longer literals have no word.
-/

namespace CactLang

open Claim (isHexDigit)
open Literal (digit? extend? natural? signed? word? magnitude? integer?)

namespace Numeral

/-! ## Values -/

/-- The value of a digit; sixteen for all other characters. -/
def digitValue (c : Char) : Nat :=
  "0123456789abcdef".toList.idxOf c.toLower

/-- The sum of the digits, each times the power of the base at its place. -/
def positional (base : Nat) : List Char → Nat
  | [] => 0
  | c :: digits => digitValue c * base ^ digits.length + positional base digits

/-- The base in which a literal is written, and its digits. -/
def split : List Char → Nat × List Char
  | '0' :: c :: text => if Pattern.isHexMark c then (16, text) else (8, c :: text)
  | text => (10, text)

/-- The value of digits in a base, if they are digits of this base. -/
def valueIn? (base : Nat) (digits : List Char) : Option Nat :=
  if !digits.isEmpty && digits.all (digitValue · < base) then some (positional base digits)
  else none

/-- The value of an integer literal. A literal in base eight with a digit `8` or `9` has
none. -/
def value? (text : String) : Option Nat :=
  valueIn? (split text.toList).1 (split text.toList).2

/-- The literal has a value that is an integer, or becomes one by the minus sign in front. -/
def InRange (negated : Bool) (text : String) : Prop :=
  ∃ v, value? text = some v ∧ (v ≤ 2 ^ 31 - 1 ∨ v = 2 ^ 31 ∧ negated = true)

/-- The literal has a value that is the extent of a dimension. -/
def IsExtent (text : String) (n : Nat) : Prop :=
  value? text = some n ∧ 1 ≤ n ∧ n ≤ 2 ^ 32 - 1

/-! ## Digits -/

theorem mem_of_isHexDigit {c : Char} (h : isHexDigit c = true) :
    c ∈ "0123456789abcdefABCDEF".toList := by
  have hranges : 48 ≤ c.toNat ∧ c.toNat ≤ 57 ∨ 97 ≤ c.toNat ∧ c.toNat ≤ 102 ∨
      65 ≤ c.toNat ∧ c.toNat ≤ 70 := by
    simp only [isHexDigit, Char.isDigit, Bool.or_eq_true, Bool.and_eq_true, decide_eq_true_eq,
      Char.le_def, ge_iff_le, UInt32.le_iff_toNat_le] at h
    rcases h with (h | h) | h
    · exact .inl h
    · exact .inr (.inl h)
    · exact .inr (.inr h)
  rw [← Char.ofNat_toNat c]
  rcases hranges with ⟨hlow, hhigh⟩ | ⟨hlow, hhigh⟩ | ⟨hlow, hhigh⟩ <;>
    generalize c.toNat = n at hlow hhigh ⊢ <;> interval_cases n <;> decide

theorem digit?_eq {c : Char} (h : isHexDigit c = true) {base : Nat} (hbase : base ≤ 16) :
    digit? base c = if digitValue c < base then some (digitValue c) else none := by
  have hvalue : "0123456789abcdefABCDEF".toList.all
      (fun c => digit? 16 c = some (digitValue c)) = true := by
    decide
  have hfilter : digit? base c = (digit? 16 c).filter (· < base) := by
    simp only [digit?, Option.filter_filter]
    congr 1
    funext n
    rw [← Bool.decide_and, decide_eq_decide]
    omega
  have hc := of_decide_eq_true (List.all_eq_true.mp hvalue c (mem_of_isHexDigit h))
  rw [hfilter, hc, Option.filter_some]
  simp only [decide_eq_true_eq]

theorem isHexDigit_of_isDigit {c : Char} (h : c.isDigit = true) : isHexDigit c = true := by
  simp [isHexDigit, h]

/-- Each digit multiplies what stands before it by the base. -/
theorem extend?_eq {base : Nat} (hbase : base ≤ 16) {digits : List Char} :
    (∀ c ∈ digits, isHexDigit c = true) → ∀ value, extend? base value digits =
      if digits.all (digitValue · < base) then
        some (value * base ^ digits.length + positional base digits)
      else none := by
  induction digits with
  | nil =>
    intro _ value
    simp [extend?, positional]
  | cons c digits ih =>
    intro hdigits value
    obtain ⟨hc, hdigits⟩ := List.forall_mem_cons.mp hdigits
    rw [extend?, digit?_eq hc hbase]
    by_cases hlt : digitValue c < base
    · -- the digit is taken into the value before the rest, so it counts at its full power
      have hsum : (value * base + digitValue c) * base ^ digits.length + positional base digits =
          value * base ^ (digits.length + 1) +
            (digitValue c * base ^ digits.length + positional base digits) := by
        ring
      simp only [hlt, if_true, ih hdigits, hsum, List.all_cons, decide_true, Bool.true_and,
        List.length_cons, positional]
    · simp [hlt]

theorem natural?_eq {base : Nat} (hbase : base ≤ 16) {digits : List Char}
    (h : ∀ c ∈ digits, isHexDigit c = true) : natural? base digits = valueIn? base digits := by
  cases digits with
  | nil => rfl
  | cons c digits =>
    rw [natural?, extend?_eq hbase h]
    simp [valueIn?]

theorem signed?_eq {base : Nat} (hbase : base ≤ 16) {digits : List Char}
    (h : ∀ c ∈ digits, isHexDigit c = true) :
    signed? base digits = (valueIn? base digits).bind fun n => word? n := by
  unfold signed?
  split
  next => exact absurd (h '+' List.mem_cons_self) (by decide)
  next => exact absurd (h '-' List.mem_cons_self) (by decide)
  next =>
    rw [natural?_eq hbase h]
    cases valueIn? base digits <;> rfl

/-! ## Literals -/

theorem magnitude?_eq_signed? (text : List Char) :
    magnitude? text = signed? (split text).1 (split text).2 := by
  unfold magnitude? split
  split
  next => rfl
  next => rfl
  next c text hx hX =>
    have hmark : Pattern.isHexMark c = false := by
      rw [Pattern.isHexMark, Bool.or_eq_false_iff, decide_eq_false_iff_not, decide_eq_false_iff_not]
      exact ⟨hx, hX⟩
    simp [hmark]
  next hx hX hzero =>
    split
    next c text => exact absurd rfl (hzero c text)
    next => rfl

theorem base_le (text : List Char) : (split text).1 ≤ 16 := by
  unfold split
  split
  next =>
    split
    next => exact Nat.le_refl 16
    next => exact Nat.le_add_right 8 8
  next => exact Nat.le_add_right 10 6

/-- What a literal has after its mark are digits. -/
theorem isHexDigit_split {text : List Char} (h : text ∈ Pattern.hexadecimal + Pattern.digits) :
    ∀ c ∈ (split text).2, isHexDigit c = true := by
  rcases h with h | h
  · obtain ⟨x, digits, rfl, hx, hdigits⟩ := Pattern.exists_of_mem_hexadecimal h
    have hsplit : split ('0' :: x :: digits) = (16, digits) := if_pos hx
    rw [hsplit]
    exact hdigits
  · have hdigits : ∀ c ∈ text, isHexDigit c = true := fun c hc =>
      isHexDigit_of_isDigit ((Pattern.mem_one_mul_many.mp h).2 c hc)
    -- whatever base a decimal text is read in, its digits are an end of it
    have hsuffix : (split text).2 <:+ text := by
      unfold split
      split
      next c text =>
        split
        next => exact (List.suffix_cons c text).trans (List.suffix_cons '0' _)
        next => exact List.suffix_cons '0' _
      next => exact List.suffix_rfl
    exact fun c hc => hdigits c (hsuffix.subset hc)

theorem magnitude?_eq {text : String} (h : IsNumeral text) :
    magnitude? text.toList = (value? text).bind fun n => word? n := by
  obtain ⟨source, file, tokens, htokens, t, ht, hkind, rfl⟩ := h
  rw [magnitude?_eq_signed?]
  exact signed?_eq (base_le _) (isHexDigit_split (tokenize_integer htokens ht hkind))

theorem word?_natCast {n : Nat} (h : n < 2 ^ 63) : word? n = some (n : Int) := by
  refine if_pos ?_
  omega

theorem word?_eq_some {value result : Int} (h : word? value = some result) : result = value := by
  unfold word? at h
  split at h
  next => exact (Option.some.inj h).symm
  next => cases h

theorem integer?_eq {text : String} (h : IsNumeral text) :
    integer? text.toList = (value? text).bind fun n => word? n := by
  have hunsigned := h.unsigned
  rw [← magnitude?_eq h]
  unfold integer?
  split
  next heq =>
    rw [heq] at hunsigned
    exact absurd List.mem_cons_self hunsigned
  next => rfl

/-- A value is a word, as far as values in some range below the limit of words matter. -/
theorem integer?_eq_some {text : String} (h : IsNumeral text) {value : Int}
    (hlt : value < 2 ^ 63) :
    integer? text.toList = some value ↔ ∃ n : Nat, value? text = some n ∧ value = n := by
  rw [integer?_eq h, Option.bind_eq_some_iff]
  constructor
  · rintro ⟨n, hn, hword⟩
    exact ⟨n, hn, word?_eq_some hword⟩
  · rintro ⟨n, hn, rfl⟩
    exact ⟨n, hn, word?_natCast (by omega)⟩

/-- With a minus sign in front, the value is not positive. -/
theorem integer?_minus {text : String} (h : IsNumeral text) {value : Int}
    (hvalue : integer? ("-" ++ text).toList = some value) : value ≤ 0 := by
  rw [String.toList_append] at hvalue
  obtain ⟨v, hv, hword⟩ := Option.bind_eq_some_iff.mp
    (show (magnitude? text.toList).bind (fun v => word? (-v)) = some value from hvalue)
  rw [magnitude?_eq h] at hv
  obtain ⟨n, _, hn⟩ := Option.bind_eq_some_iff.mp hv
  rw [word?_eq_some hword, word?_eq_some hn]
  omega

theorem isLiteral_iff_inRange {text : String} (h : IsNumeral text) (negated : Bool) :
    Typing.isLiteral .integer negated text.toList = true ↔ InRange negated text := by
  -- the limits are far inside of the word, so that no reading fails for its size alone
  have hlimit : Typing.integerLimit negated < 2 ^ 63 := by
    cases negated <;> decide
  have hint : Typing.isLiteral .integer negated text.toList = true ↔
      ∃ value, integer? text.toList = some value ∧ value ≤ Typing.integerLimit negated := by
    unfold Typing.isLiteral
    cases integer? text.toList <;> simp
  rw [hint]
  constructor
  · rintro ⟨value, hvalue, hle⟩
    obtain ⟨n, hn, rfl⟩ := (integer?_eq_some h (by omega)).mp hvalue
    refine ⟨n, hn, ?_⟩
    cases negated <;> simp [Typing.integerLimit] at hle ⊢ <;> omega
  · rintro ⟨n, hn, hle⟩
    have hle : (n : Int) ≤ Typing.integerLimit negated := by
      cases negated <;> simp [Typing.integerLimit] at hle ⊢ <;> omega
    exact ⟨n, (integer?_eq_some h (by omega)).mpr ⟨n, hn, rfl⟩, hle⟩

/-! ## Dimensions -/

/-- A minus sign is no digit. -/
theorem value?_minus (text : String) : value? ("-" ++ text) = none := by
  have hsplit : split ("-" ++ text).toList = (10, '-' :: text.toList) := by
    rw [String.toList_append]
    rfl
  rw [value?, hsplit]
  exact if_neg (by simp [digitValue])

theorem extent?_eq_some {dim : Dimension} (h : IsNumeral dim.text) {n : Nat} :
    Typing.extent? dim = some n ↔ IsExtent dim.text n := by
  have hextent : Typing.extent? dim = some n ↔
      integer? dim.text.toList = some (n : Int) ∧ 1 ≤ n ∧ n ≤ 2 ^ 32 - 1 := by
    unfold Typing.extent?
    cases integer? dim.text.toList with
    | none => simp
    | some value =>
      simp only [Option.ite_none_right_eq_some, Option.some.injEq]
      omega
  rw [hextent]
  refine and_congr_left fun hn => ?_
  rw [integer?_eq_some h (by omega)]
  simp

theorem extent?_minus {dim : Dimension} {text : String} (h : IsNumeral text)
    (hdim : dim.text = "-" ++ text) : Typing.extent? dim = none := by
  unfold Typing.extent?
  rw [hdim]
  cases hvalue : integer? ("-" ++ text).toList with
  | none => rfl
  | some value =>
    have hle := integer?_minus h hvalue
    exact if_neg (by omega)

end Numeral

/-- The dimension is a literal of some source, perhaps after a minus sign. -/
def Dimension.IsWritten (dim : Dimension) : Prop :=
  IsNumeral dim.text ∨ ∃ text, IsNumeral text ∧ dim.text = "-" ++ text

theorem Dimension.IsWritten.extent?_eq_some {dim : Dimension} (h : dim.IsWritten) {n : Nat} :
    Typing.extent? dim = some n ↔ Numeral.IsExtent dim.text n := by
  rcases h with h | ⟨text, h, hdim⟩
  · exact Numeral.extent?_eq_some h
  · rw [Numeral.extent?_minus h hdim, Numeral.IsExtent, hdim, Numeral.value?_minus]
    simp

theorem Dimension.IsWritten.extent?_eq_none {dim : Dimension} (h : dim.IsWritten) :
    Typing.extent? dim = none ↔ ∀ n, ¬Numeral.IsExtent dim.text n := by
  simp only [Option.eq_none_iff_forall_ne_some, ne_eq, h.extent?_eq_some]

/-- Every dimension of what a source is read as is a literal, perhaps after a minus sign. -/
theorem parse_isWritten {source file file' : String} {tokens : List Token} {p : Program}
    {c : Cursor} (hscan : tokenize source file = .ok tokens) (hparse : parse tokens file' = .ok p c)
    {n : Node} (hn : n ∈ p.nodes) {dim : Dimension} (hdim : dim ∈ n.dims) : dim.IsWritten := by
  obtain ⟨us, hus, _, hrow⟩ := (parse_lays hparse).2 n hn
  obtain ⟨vs, hvs, hcovers⟩ := hrow.covers _ (Node.dim_mem_inner hdim)
  -- the words of a dimension are those of tokens, and a number among these is a numeral
  have htokens : vs ⊆ tokens :=
    List.Subset.trans (hvs.trans hus).subset (List.takeWhile_sublist _).subset
  have hnumber : ∀ {text : String}, Word.number .integer text ∈ vs.map Token.word →
      IsNumeral text := by
    intro text hmem
    obtain ⟨t, ht, hword⟩ := List.mem_map.mp hmem
    exact ⟨source, file, tokens, hscan, t, htokens ht, congrArg Word.kind hword,
      Token.text_eq hword rfl⟩
  obtain ⟨ws, rest, hwords, hspells, hrest⟩ := hcovers.spelled
  have hws : ws = vs.map Token.word := by
    rw [hwords, show rest = [] from hrest, List.append_nil]
  rw [← hws] at hnumber
  -- the digits alone, or a minus before them
  rcases hspells with rfl | ⟨digits, hdigits, rfl⟩
  · exact .inl (hnumber List.mem_cons_self)
  · exact .inr ⟨digits, hnumber (by simp), hdigits⟩

namespace Typing

open Numeral (InRange IsExtent)

/-- The type of dimensions that are written in a source has their extents. -/
theorem declaredType_ok_iff {basic : BasicType} {dims : List Dimension} {isOpen : Bool}
    {id : NodeId} (h : ∀ dim ∈ dims, dim.IsWritten) {ty : Ty} :
    declaredType basic dims isOpen id = .ok ty ↔
      ∃ ns, List.Forall₂ (fun dim n => IsExtent dim.text n) dims ns ∧
        ty = ⟨basic, if isOpen then 0 :: ns else ns⟩ := by
  have hextents : ∀ ns, List.Forall₂ (fun dim n => extent? dim = some n) dims ns ↔
      List.Forall₂ (fun dim n => IsExtent dim.text n) dims ns := by
    intro ns
    induction dims generalizing ns with
    | nil => simp
    | cons dim dims ih =>
      obtain ⟨hdim, hdims⟩ := List.forall_mem_cons.mp h
      simp only [List.forall₂_cons_left_iff, hdim.extent?_eq_some, ih hdims]
  simp only [declaredType, bind_ok, pure_ok, checkDimensions_ok, hextents]
  exact exists_congr fun ns => and_congr_right fun _ => eq_comm

theorem declaredType_error_iff {basic : BasicType} {dims : List Dimension} {isOpen : Bool}
    {id : NodeId} (h : ∀ dim ∈ dims, dim.IsWritten) {d : Diagnostic} :
    declaredType basic dims isOpen id = .error d ↔
      ∃ before dim after, dims = before ++ dim :: after ∧
        (∀ b ∈ before, ∃ n, IsExtent b.text n) ∧ (∀ n, ¬IsExtent dim.text n) ∧
        d = .ofNode (.badDimension dim.text) id dim.span := by
  simp only [declaredType, bind_error, pure_ne_error, and_false, exists_false, or_false,
    checkDimensions_error]
  refine exists_congr fun before => exists_congr fun dim => exists_congr fun after =>
    and_congr_right fun hdims => ?_
  rw [hdims, List.forall_mem_append, List.forall_mem_cons] at h
  obtain ⟨hbefore, hdim, _⟩ := h
  rw [hdim.extent?_eq_none]
  refine and_congr_left fun _ => forall₂_congr fun b hb => exists_congr fun n => ?_
  exact (hbefore b hb).extent?_eq_some

/-- **A literal is judged by its positional value.** As an expression it passes if its value
is at most `2 ^ 31 - 1`, or is `2 ^ 31` and a minus sign stands directly in front of it. So in
an expression that passes every literal has such a value, and one that is rejected for a
literal has one that does not.

A dimension is accepted if the value of its literal is from `1` up to `2 ^ 32 - 1`, which then
is its extent, and with a minus sign never. The type that dimensions declare has their extents,
and fails at the first of them that has none. Dimensions that are read from a source are all
written like this. -/
theorem numeral_judged_by_value {text : String} (htext : IsNumeral text) (r : Registry)
    (scope : ScopeId) :
    (∀ negated id span info,
      (∃ result, checkExpr r scope negated ⟨id, .number text .integer, span, info⟩ = .ok result) ↔
        InRange negated text) ∧
    (∀ e result, checkExpr r scope false e = .ok result →
      ∀ u ∈ e.literals false, u.kind = .integer → u.text = text → InRange u.negated text) ∧
    (∀ e d, checkExpr r scope false e = .error (.diagnostic d) → d.cause = .badNumber text →
      ∃ u ∈ e.literals false, u.text = text ∧ d = u.failure ∧
        (u.kind = .integer → ¬InRange u.negated text)) ∧
    (∀ id span n, checkDimension id ⟨text, span⟩ = .ok n ↔ IsExtent text n) ∧
    (∀ id span, checkDimension id ⟨"-" ++ text, span⟩ =
      .error (.ofNode (.badDimension ("-" ++ text)) id span)) ∧
    (∀ basic dims isOpen id, (∀ dim ∈ dims, dim.IsWritten) →
      (∀ ty, declaredType basic dims isOpen id = .ok ty ↔
        ∃ ns, List.Forall₂ (fun dim n => IsExtent dim.text n) dims ns ∧
          ty = ⟨basic, if isOpen then 0 :: ns else ns⟩) ∧
      ∀ d, declaredType basic dims isOpen id = .error d ↔
        ∃ before dim after, dims = before ++ dim :: after ∧
          (∀ b ∈ before, ∃ n, IsExtent b.text n) ∧ (∀ n, ¬IsExtent dim.text n) ∧
          d = .ofNode (.badDimension dim.text) id dim.span) ∧
    ∀ source file file' tokens p c, tokenize source file = .ok tokens →
      parse tokens file' = .ok p c → ∀ n ∈ p.nodes, ∀ dim ∈ n.dims, dim.IsWritten := by
  refine ⟨fun negated id span info => ?_, fun e result hok u hu hkind hu_text => ?_,
    fun e d herror hcause => ?_, fun id span n => ?_, fun id span => ?_,
    fun basic dims isOpen id hdims => ?_, fun source file file' tokens p c hscan hparse n hn => ?_⟩
  · rw [← Numeral.isLiteral_iff_inRange htext]
    constructor
    · rintro ⟨⟨e', i⟩, hok⟩
      exact (checkExpr_number_ok.mp hok).1
    · intro hl
      exact ⟨_, checkExpr_number_ok.mpr ⟨hl, rfl, rfl⟩⟩
  · have hvalid := checkExpr_valid hok u hu
    rw [LiteralUse.isValid, hkind, hu_text] at hvalid
    exact (Numeral.isLiteral_iff_inRange htext _).mp hvalid
  · obtain ⟨u, hu, hinvalid, rfl⟩ := checkExpr_invalid herror d text rfl hcause
    have hu_text : u.text = text := Cause.badNumber.inj hcause
    refine ⟨u, hu, hu_text, rfl, fun hkind hrange => ?_⟩
    rw [LiteralUse.isValid, hkind, hu_text,
      (Numeral.isLiteral_iff_inRange htext _).mpr hrange] at hinvalid
    cases hinvalid
  · rw [checkDimension_ok]
    exact Numeral.extent?_eq_some htext
  · exact checkDimension_error.mpr ⟨Numeral.extent?_minus htext rfl, rfl⟩
  · exact ⟨fun ty => declaredType_ok_iff hdims, fun d => declaredType_error_iff hdims⟩
  · exact fun dim hdim => parse_isWritten hscan hparse hn hdim

/-- The literal of `2 ^ 31` in base sixteen. It needs its minus sign, and is the extent of a
dimension that has none. -/
theorem numeral_judged_by_value_minimum :
    Numeral.value? "0x80000000" = some (2 ^ 31) ∧
    (∃ result, checkExpr (start true).registry ⟨0⟩ true
      ⟨⟨1⟩, .number "0x80000000" .integer, .ofBytes "shell" 1 10, none⟩ = .ok result) ∧
    (¬∃ result, checkExpr (start true).registry ⟨0⟩ false
      ⟨⟨1⟩, .number "0x80000000" .integer, .ofBytes "shell" 1 10, none⟩ = .ok result) ∧
    declaredType .int32 [⟨"0x80000000", .ofBytes "shell" 6 10⟩] true ⟨2⟩ =
      .ok ⟨.int32, [0, 2 ^ 31]⟩ ∧
    declaredType .int32 [⟨"0x80000000", .ofBytes "shell" 6 10⟩,
        ⟨"-0x80000000", .ofBytes "shell" 18 11⟩] true ⟨2⟩ =
      .error (.ofNode (.badDimension "-0x80000000") ⟨2⟩ (.ofBytes "shell" 18 11)) := by
  have htokens : tokenize "0x80000000" = .ok
      [⟨.integerLiteral, "0x80000000", .ofBytes "shell" 0 10⟩, .endOfInput ⟨10, "shell"⟩] := by
    decide +kernel
  have htext : IsNumeral "0x80000000" :=
    ⟨_, _, _, htokens, _, List.mem_cons_self, rfl, rfl⟩
  have hvalue : Numeral.value? "0x80000000" = some (2 ^ 31) := by decide +kernel
  -- the same text is an extent, but with a minus it is none
  have hextent : IsExtent "0x80000000" (2 ^ 31) := ⟨hvalue, by omega, by omega⟩
  have hminus : ∀ n, ¬IsExtent "-0x80000000" n := fun n h =>
    absurd ((Numeral.value?_minus "0x80000000").symm.trans h.1) (by simp)
  obtain ⟨hliteral, _, _, _, _, hdims, _⟩ :=
    numeral_judged_by_value htext (start true).registry ⟨0⟩
  refine ⟨hvalue, (hliteral ..).mpr ⟨_, hvalue, .inr ⟨rfl, rfl⟩⟩, fun h => ?_, ?_, ?_⟩
  · obtain ⟨v, hv, hle⟩ := (hliteral ..).mp h
    obtain rfl := Option.some.inj (hvalue.symm.trans hv)
    exact absurd hle (by decide)
  · refine ((hdims .int32 _ true ⟨2⟩ ?_).1 _).mpr ⟨[2 ^ 31], .cons hextent .nil, rfl⟩
    exact List.forall_mem_singleton.mpr (.inl htext)
  · refine ((hdims .int32 _ true ⟨2⟩ ?_).2 _).mpr
      ⟨[_], _, [], rfl, List.forall_mem_singleton.mpr ⟨_, hextent⟩, hminus, rfl⟩
    exact List.forall_mem_cons.mpr
      ⟨.inl htext, List.forall_mem_singleton.mpr (.inr ⟨_, htext, rfl⟩)⟩

end Typing

end CactLang
