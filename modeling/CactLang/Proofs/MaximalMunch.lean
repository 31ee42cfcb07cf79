import CactLang.Proofs.Priority
import Mathlib.Data.List.Pairwise

/-!
# Maximal munch

A text is cut by the first class that claims something, and nothing in this looks for the
longest lexeme. It is found all the same, because of the order of the classes.

> `LexemeSort.Precedes a b`: wherever a lexeme of `a` stands, no lexeme of `b` is longer than
> it.

Lexemes that start with different characters are never in each other's way. What is left to
look at are the numbers, where a longer form comes before a shorter one, and what starts with
a slash or another symbol.
-/

namespace CactLang

open Claim (isWordStart)
open Text (isBlank)

/-! ## Comments and numbers -/

namespace Claim

variable {text w : List Char}

/-- The first `*/` is the one after a text that has none. -/
theorem commentEnd?_append {body : List Char} (h : ¬"*/".toList <:+: body) (rest : List Char) :
    commentEnd? (body ++ "*/".toList ++ rest) = some (body.length + 2) := by
  induction body with
  | nil => rfl
  | cons c body ih =>
    have hbody : ¬"*/".toList <:+: body := fun hinside =>
      h (hinside.trans (List.suffix_cons c body).isInfix)
    rw [List.cons_append, List.cons_append, commentEnd?.eq_def]
    split
    next heq => cases heq
    next tail heq =>
      -- the text would have a `*/` itself
      obtain ⟨rfl, htail⟩ := List.cons.inj heq
      cases body with
      | nil => cases htail
      | cons d body =>
        obtain ⟨rfl, _⟩ := List.cons.inj htail
        exact absurd ⟨[], body, rfl⟩ h
    next heq =>
      obtain ⟨_, rfl⟩ := List.cons.inj heq
      rw [ih hbody]
      rfl

/-- A float is a double and one character more. -/
theorem float_eq (h : float text ≠ 0) : float text = double text + 1 := by
  unfold float at h ⊢
  split at h
  next => exact absurd rfl h
  next n hn =>
    split at h
    next =>
      split at h
      next hmark => simp [hn, hmark]
      next => exact absurd rfl h
    next => exact absurd rfl h

/-- A double is at least as long as the digits in front. -/
theorem digits_le_double (h : double text ≠ 0) : digits text ≤ double text := by
  obtain ⟨ds, tail, rfl, hlength, hds, ⟨rest, rfl⟩ | htail⟩ := digits_split text
  · rw [double_point hds] at h ⊢
    split at h
    next => exact absurd rfl h
    next hsome =>
      rw [if_neg hsome]
      omega
  · rw [double_noPoint hds htail] at h ⊢
    split at h
    next => exact absurd rfl h
    next hsome =>
      rw [if_neg hsome]
      omega

/-- Where the text of a double stands, a double is found. -/
theorem double_found (hw : w ∈ Pattern.double) (rest : List Char) : double (w ++ rest) ≠ 0 :=
  (double_munches.recognises Pattern.nil_notMem_double).found w hw rest

/-- The mark of a hexadecimal number ends every double. -/
theorem double_hexadecimal (hw : w ∈ Pattern.hexadecimal) (rest : List Char) :
    double (w ++ rest) = 0 := by
  obtain ⟨x, v, rfl, hx, _⟩ := Pattern.exists_of_mem_hexadecimal hw
  have hzero : ∀ c ∈ ['0'], c.isDigit = true := by simp
  have hmark : x = 'x' ∨ x = 'X' := by simpa [Pattern.isHexMark] using hx
  show double (['0'] ++ x :: (v ++ rest)) = 0
  rw [double_noPoint hzero]
  · rcases hmark with rfl | rfl <;> rfl
  · intro c hc
    obtain rfl := Option.some.inj hc
    rcases hmark with rfl | rfl <;> decide

/-- Digits alone are no double. -/
theorem double_digits (hw : w ∈ Pattern.digits) : double w = 0 := by
  have hend : ∀ c, ([] : List Char).head? = some c → c.isDigit = false ∧ c ≠ '.' := by simp
  have hdouble := double_noPoint (Pattern.mem_one_mul_many.mp hw).2 hend
  rw [List.append_nil] at hdouble
  rw [hdouble]
  exact if_pos (.inr rfl)

end Claim

/-! ## Sorts of lexemes -/

/-- The sorts of lexemes. -/
inductive LexemeSort where
  | word
  | float
  | double
  | hexadecimal
  | digits
  | blanks
  | lineComment
  | blockComment
  | symbol (text : String) (kind : TokenKind)

namespace LexemeSort

/-- The texts of a sort. A comment in `/*` and `*/` has no other `*/` before its end. -/
def language : LexemeSort → Language Char
  | word => Pattern.word
  | float => Pattern.float
  | double => Pattern.double
  | hexadecimal => Pattern.hexadecimal
  | digits => Pattern.digits
  | blanks => Pattern.blanks
  | lineComment => Pattern.lineComment
  | blockComment =>
    {w | ∃ body, w = "/*".toList ++ body ++ "*/".toList ∧ ¬"*/".toList <:+: body}
  | symbol text _ => Pattern.literal text

/-- The token that a text of a sort makes, if it is not layout. -/
def kind : LexemeSort → List Char → Option TokenKind
  | word, text => some (TokenKind.ofWord (String.ofList text))
  | float, _ => some .floatLiteral
  | double, _ => some .doubleLiteral
  | hexadecimal, _ => some .integerLiteral
  | digits, _ => some .integerLiteral
  | blanks, _ => none
  | lineComment, _ => none
  | blockComment, _ => none
  | symbol _ kind, _ => some kind

/-- Every sort of lexemes. -/
def all : List LexemeSort :=
  [word, float, double, hexadecimal, digits, blanks, lineComment, blockComment] ++
    symbols.map fun row => symbol row.pattern row.kind

/-- How many characters a sort takes at the front of a text. -/
def claim : LexemeSort → List Char → Nat
  | word => Claim.word
  | float => Claim.float
  | double => Claim.double
  | hexadecimal => Claim.hexadecimal
  | digits => Claim.digits
  | blanks => Claim.blanks
  | lineComment => Claim.lineComment
  | blockComment => Claim.blockComment
  | symbol text _ => Claim.fixed text.toList text.toList

/-- The text of a lexeme: a symbol has its own, whatever was taken for it. -/
def spelling : LexemeSort → List Char → List Char
  | symbol text _, _ => text.toList
  | _, taken => taken

/-- The class for the lexemes of a sort. -/
def cls (sort : LexemeSort) : LexemeClass :=
  ⟨sort.claim, sort.kind, sort.spelling⟩

/-- A word of a class is spelled as it stands. -/
theorem spelling_of_mem {sort : LexemeSort} {w : List Char} (hw : w ∈ sort.language) :
    sort.spelling w = w := by
  cases sort with
  | symbol text kind => exact (show w = text.toList from hw).symm
  | _ => rfl

/-- The classes of the sorts are all classes, in their order. -/
theorem map_cls_all : all.map cls = LexemeClass.all := by
  rfl

/-- What is claimed is the longest text of the sort. -/
theorem munches (sort : LexemeSort) : Munches sort.claim sort.language := by
  cases sort with
  | word => exact Claim.word_munches
  | float => exact Claim.float_munches
  | double => exact Claim.double_munches
  | hexadecimal => exact Claim.hexadecimal_munches
  | digits => exact Claim.digits_munches
  | blanks => exact Claim.run_munches isBlank
  | lineComment => exact Claim.lineComment_munches
  | blockComment =>
    constructor
    · intro text hclaim
      obtain ⟨body, rest, htext, hlength, hbody⟩ := Claim.blockComment_taken text hclaim
      exact ⟨_, ⟨body, rfl, hbody⟩, rest, htext, hlength⟩
    · rintro _ ⟨body, rfl, hbody⟩ rest
      show _ ≤ Claim.blockComment ('/' :: '*' :: (body ++ "*/".toList ++ rest))
      rw [Claim.blockComment, Claim.commentEnd?_append hbody]
      simp
  | symbol text kind => exact Claim.fixed_munches text

/-! ### The first character -/

/-- What a character can start. -/
inductive Start where
  | letter
  | number
  | blank
  | mark
deriving DecidableEq

/-- What the character starts. -/
def Start.of (c : Char) : Start :=
  if isWordStart c then .letter
  else if c.isDigit || c = '.' then .number
  else if isBlank c then .blank
  else .mark

/-- What the texts of a sort start with. -/
def start : LexemeSort → Start
  | word => .letter
  | float | double | hexadecimal | digits => .number
  | blanks => .blank
  | lineComment | blockComment | symbol .. => .mark

section

variable {c : Char}

/-- The first characters of words, by their codes. -/
theorem isWordStart_iff : isWordStart c = true ↔
    65 ≤ c.toNat ∧ c.toNat ≤ 90 ∨ 97 ≤ c.toNat ∧ c.toNat ≤ 122 ∨ c.toNat = 95 := by
  have hunderscore : c = '_' ↔ c.toNat = 95 := ⟨fun h => h ▸ rfl, fun h => Char.toNat_inj.mp h⟩
  have hupper : c.isUpper = true ↔ 'A'.val ≤ c.val ∧ c.val ≤ 'Z'.val := decide_eq_true_iff
  have hlower : c.isLower = true ↔ 'a'.val ≤ c.val ∧ c.val ≤ 'z'.val := by
    show (decide ('a'.val ≤ c.val) && decide (c.val ≤ 'z'.val)) = true ↔ _
    rw [Bool.and_eq_true, decide_eq_true_iff, decide_eq_true_iff]
  show ((c.isUpper || c.isLower) || decide (c = '_')) = true ↔ _
  rw [Bool.or_eq_true, Bool.or_eq_true, hupper, hlower, decide_eq_true_iff, hunderscore, or_assoc]
  rfl

theorem isDigit_iff : c.isDigit = true ↔ 48 ≤ c.toNat ∧ c.toNat ≤ 57 := by
  simp only [Char.isDigit, Bool.and_eq_true, decide_eq_true_eq, ge_iff_le,
    UInt32.le_iff_toNat_le]
  rfl

/-- The codes of blanks are below those of all other classes, or above them. -/
theorem isBlank_range (h : isBlank c = true) : c.toNat ≤ 32 ∨ 133 ≤ c.toNat := by
  simp only [isBlank, Bool.or_eq_true, Bool.and_eq_true, decide_eq_true_eq, beq_iff_eq] at h
  omega

/-- A digit starts a number. -/
theorem Start.of_isDigit (h : c.isDigit = true) : Start.of c = .number := by
  have hrange := isDigit_iff.mp h
  have hword : ¬isWordStart c = true := by
    rw [isWordStart_iff]
    omega
  rw [Start.of, if_neg hword, h]
  rfl

/-- A blank starts a gap. -/
theorem Start.of_isBlank (h : isBlank c = true) : Start.of c = .blank := by
  have hrange := isBlank_range h
  have hword : ¬isWordStart c = true := by
    rw [isWordStart_iff]
    omega
  have hnumber : ¬(c.isDigit || c = '.') = true := by
    rw [Bool.or_eq_true, isDigit_iff, decide_eq_true_iff]
    rintro (hc | rfl)
    · omega
    · exact absurd hrange (by decide)
  rw [Start.of, if_neg hword, if_neg hnumber, if_pos h]

end

theorem exists_head_digits {w : List Char} (hw : w ∈ Pattern.digits) :
    ∃ c v, w = c :: v ∧ Start.of c = .number := by
  obtain ⟨_, ⟨c, rfl, hc⟩, v, _, rfl⟩ := Language.mem_mul.mp hw
  exact ⟨c, v, rfl, Start.of_isDigit hc⟩

/-- The first character stays the first. -/
theorem exists_head_append {w v : List Char} {start : Start}
    (h : ∃ c u, w = c :: u ∧ Start.of c = start) :
    ∃ c u, w ++ v = c :: u ∧ Start.of c = start := by
  obtain ⟨c, u, rfl, hc⟩ := h
  exact ⟨c, u ++ v, rfl, hc⟩

/-- A double starts like a number. -/
theorem exists_head_double {w : List Char} (hw : w ∈ Pattern.double) :
    ∃ c v, w = c :: v ∧ Start.of c = .number := by
  rcases hw with hw | hw
  · obtain ⟨u, hu, e, _, rfl⟩ := Language.mem_mul.mp hw
    refine exists_head_append ?_
    rcases hu with hu | hu
    · obtain ⟨ds, hds, v, hv, rfl⟩ := Language.mem_mul.mp hu
      obtain ⟨_, rfl, fs, _, rfl⟩ := Language.mem_mul.mp hv
      cases ds with
      | nil => exact ⟨'.', fs, rfl, by decide⟩
      | cons c ds => exact ⟨c, _, rfl, Start.of_isDigit (hds c List.mem_cons_self)⟩
    · obtain ⟨ds, hds, _, rfl, rfl⟩ := Language.mem_mul.mp hu
      exact exists_head_append (exists_head_digits hds)
  · obtain ⟨ds, hds, e, _, rfl⟩ := Language.mem_mul.mp hw
    exact exists_head_append (exists_head_digits hds)

/-- The symbols among the sorts are those of the table. -/
theorem symbol_mem_all {text : String} {kind : TokenKind} (h : symbol text kind ∈ all) :
    ∃ row ∈ symbols, row.pattern = text ∧ row.kind = kind := by
  simpa [all] using h

/-- A text of a sort has a first character, which tells what it starts. -/
theorem exists_head {sort : LexemeSort} (hsort : sort ∈ all) {w : List Char}
    (hw : w ∈ sort.language) : ∃ c v, w = c :: v ∧ Start.of c = sort.start := by
  cases sort with
  | word =>
    obtain ⟨_, ⟨c, rfl, hc⟩, v, _, rfl⟩ := Language.mem_mul.mp hw
    exact ⟨c, v, rfl, if_pos hc⟩
  | float =>
    obtain ⟨u, hu, v, _, rfl⟩ := Language.mem_mul.mp hw
    exact exists_head_append (exists_head_double hu)
  | double => exact exists_head_double hw
  | hexadecimal =>
    obtain ⟨_, rfl, v, _, rfl⟩ := Language.mem_mul.mp hw
    exact ⟨'0', v, rfl, by decide⟩
  | digits => exact exists_head_digits hw
  | blanks =>
    obtain ⟨_, ⟨c, rfl, hc⟩, v, _, rfl⟩ := Language.mem_mul.mp hw
    exact ⟨c, v, rfl, Start.of_isBlank hc⟩
  | lineComment =>
    obtain ⟨_, rfl, v, _, rfl⟩ := Language.mem_mul.mp hw
    exact ⟨'/', '/' :: v, rfl, by decide⟩
  | blockComment =>
    obtain ⟨body, rfl, _⟩ := hw
    exact ⟨'/', '*' :: (body ++ "*/".toList), rfl, by decide⟩
  | symbol text kind =>
    -- a look at the table: no symbol starts as a word, a number or a blank does
    have hall : ∀ row ∈ symbols, row.pattern.toList.head?.map Start.of = some .mark := by decide
    obtain ⟨row, hrow, rfl, _⟩ := symbol_mem_all hsort
    obtain ⟨c, hc, hstart⟩ := Option.map_eq_some_iff.mp (hall row hrow)
    obtain ⟨v, hv⟩ := List.head?_eq_some_iff.mp hc
    exact ⟨c, v, (show w = row.pattern.toList from hw).trans hv, hstart⟩

/-! ### Precedence -/

/-- Wherever a text of the one sort stands, the other sort has no longer text there. The two
sorts have no text in common. -/
structure Precedes (a b : LexemeSort) : Prop where
  covers : ∀ text, a.claim text ≠ 0 → ∀ w ∈ b.language, w <+: text → w.length ≤ a.claim text
  disjoint : ∀ w ∈ a.language, w ∉ b.language

/-- Sorts that start differently are not in each other's way. -/
theorem Precedes.of_start {a b : LexemeSort} (ha : a ∈ all) (hb : b ∈ all)
    (h : a.start ≠ b.start) : Precedes a b := by
  have happart : ∀ u ∈ a.language, ∀ v ∈ b.language, ∀ text, u <+: text → ¬v <+: text := by
    rintro u hu v hv text ⟨_, rfl⟩ ⟨_, hrest⟩
    obtain ⟨c, u, rfl, hc⟩ := exists_head ha hu
    obtain ⟨d, v, rfl, hd⟩ := exists_head hb hv
    obtain ⟨rfl, _⟩ := List.cons.inj hrest
    exact h (hc.symm.trans hd)
  constructor
  · intro text hclaim w hw hstart
    obtain ⟨u, hu, rest, htext, _⟩ := a.munches.taken text hclaim
    exact absurd hstart (happart u hu w hw text ⟨rest, htext.symm⟩)
  · intro w hw hw'
    exact happart w hw w hw' w List.prefix_rfl List.prefix_rfl

/-- A float is longer than the double in it. -/
theorem float_precedes_double : Precedes float double := by
  refine ⟨?_, fun w hw hdouble => ?_⟩
  · rintro _ hclaim w hw ⟨rest, rfl⟩
    have hle := Claim.double_munches.longest w hw rest
    show w.length ≤ Claim.float (w ++ rest)
    rw [Claim.float_eq hclaim]
    omega
  · obtain ⟨v, _, _, ⟨c, rfl, hc⟩, rfl⟩ := Language.mem_mul.mp hw
    have hmark : Pattern.isFloatMark c = false := Pattern.double_over _ hdouble c (by simp)
    rw [hc] at hmark
    cases hmark

/-- Where a hexadecimal number stands, no double does. -/
theorem double_precedes_hexadecimal : Precedes double hexadecimal := by
  refine ⟨?_, fun w hdouble hw => ?_⟩
  · rintro _ hclaim w hw ⟨rest, rfl⟩
    exact absurd (Claim.double_hexadecimal hw rest) hclaim
  · exact Claim.double_found hdouble [] (Claim.double_hexadecimal hw [])

/-- A double is at least as long as the digits it starts with. -/
theorem double_precedes_digits : Precedes double digits := by
  refine ⟨?_, fun w hdouble hw => ?_⟩
  · rintro _ hclaim w hw ⟨rest, rfl⟩
    exact Nat.le_trans (Claim.digits_munches.longest w hw rest) (Claim.digits_le_double hclaim)
  · have hfound := Claim.double_found hdouble []
    rw [List.append_nil, Claim.double_digits hw] at hfound
    exact hfound rfl

/-- A float is longer than the double that it starts with. -/
theorem float_precedes {b : LexemeSort} (h : Precedes double b)
    (hdisjoint : ∀ w ∈ float.language, w ∉ b.language) : Precedes float b := by
  refine ⟨fun text hclaim w hw hstart => ?_, hdisjoint⟩
  have hle := h.covers text (Claim.double_ne_zero hclaim) w hw hstart
  show w.length ≤ Claim.float text
  rw [Claim.float_eq hclaim]
  exact Nat.le_succ_of_le hle

theorem float_precedes_hexadecimal : Precedes float hexadecimal := by
  refine float_precedes double_precedes_hexadecimal fun w hfloat hw => ?_
  obtain ⟨v, hv, u, _, rfl⟩ := Language.mem_mul.mp hfloat
  have hzero := Claim.double_hexadecimal hw []
  rw [List.append_nil] at hzero
  exact Claim.double_found hv u hzero

theorem float_precedes_digits : Precedes float digits := by
  refine float_precedes double_precedes_digits fun w hfloat hw => ?_
  obtain ⟨v, _, _, ⟨c, rfl, hc⟩, rfl⟩ := Language.mem_mul.mp hfloat
  have hdigit : c.isDigit = true := (Pattern.mem_one_mul_many.mp hw).2 c (by simp)
  rw [Pattern.isFloatMark_of_isDigit hdigit] at hc
  cases hc

/-- A hexadecimal number is longer than the zero it starts with. -/
theorem hexadecimal_precedes_digits : Precedes hexadecimal digits := by
  have hsecond : ∀ {x : Char}, Pattern.isHexMark x = true → x.isDigit = false := by
    intro x hx
    refine Bool.eq_false_iff.mpr fun hdigit => ?_
    rw [Pattern.isHexMark_of_isDigit hdigit] at hx
    cases hx
  constructor
  · rintro text hclaim w hw ⟨rest, hrest⟩
    obtain ⟨u, hu, tail, htext, hlength⟩ := hexadecimal.munches.taken text hclaim
    obtain ⟨x, v, rfl, hx, _⟩ := Pattern.exists_of_mem_hexadecimal hu
    have hle := Claim.digits_munches.longest w hw rest
    -- the mark ends the digits after the zero
    have hone : Claim.digits (w ++ rest) = 1 := by
      rw [hrest, htext]
      show Claim.run Char.isDigit (['0'] ++ (x :: (v ++ tail))) = 1
      rw [Claim.run_append (by simp), Claim.run_cons_neg (hsecond hx)]
      rfl
    rw [← hlength, List.length_cons, List.length_cons]
    omega
  · intro w hhexadecimal hw
    obtain ⟨x, v, rfl, hx, _⟩ := Pattern.exists_of_mem_hexadecimal hhexadecimal
    have hdigit : x.isDigit = true := (Pattern.mem_one_mul_many.mp hw).2 x (by simp)
    rw [hsecond hx] at hdigit
    cases hdigit

/-- A comment is as long as every symbol, which does not open a comment. -/
theorem precedes_symbol {a : LexemeSort} {opening : String} (hlength : opening.toList.length = 2)
    (ha : ∀ w ∈ a.language, opening.toList <+: w)
    (hopening : ∀ row ∈ symbols, ¬opening.toList <+: row.pattern.toList) {row : SymbolRow}
    (hrow : row ∈ symbols) : Precedes a (symbol row.pattern row.kind) := by
  have hshort : ∀ row ∈ symbols, row.pattern.toList.length ≤ 2 := by decide
  constructor
  · rintro t hclaim w rfl _
    obtain ⟨u, hu, rest, _, hu_length⟩ := a.munches.taken t hclaim
    have hle := (ha u hu).length_le
    have hle' := hshort row hrow
    omega
  · rintro w hw rfl
    exact hopening row hrow (ha _ hw)

theorem lineComment_opening : ∀ w ∈ lineComment.language, "//".toList <+: w := by
  intro w hw
  obtain ⟨_, rfl, v, _, rfl⟩ := Language.mem_mul.mp hw
  exact List.prefix_append _ _

theorem blockComment_opening : ∀ w ∈ blockComment.language, "/*".toList <+: w := by
  rintro _ ⟨body, rfl, _⟩
  rw [List.append_assoc]
  exact List.prefix_append _ _

/-- The two kinds of comments open differently. -/
theorem lineComment_precedes_blockComment : Precedes lineComment blockComment := by
  have happart : ∀ text, "//".toList <+: text → ¬"/*".toList <+: text := by
    rintro _ ⟨u, rfl⟩ ⟨v, hv⟩
    cases hv
  constructor
  · intro text hclaim w hw hstart
    obtain ⟨u, hu, rest, rfl, _⟩ := lineComment.munches.taken text hclaim
    exact absurd ((blockComment_opening w hw).trans hstart)
      (happart _ ((lineComment_opening u hu).trans (List.prefix_append _ _)))
  · intro w hw hw'
    exact happart w (lineComment_opening w hw) (blockComment_opening w hw')

/-- A symbol that another one starts with comes after it in the table. -/
theorem symbols_pairwise :
    (symbols.map fun row => symbol row.pattern row.kind).Pairwise Precedes := by
  have hprefix : symbols.Pairwise fun s t => ¬s.pattern.toList <+: t.pattern.toList := by decide
  rw [List.pairwise_map]
  refine hprefix.imp fun {s t} h => ⟨?_, ?_⟩
  · intro text hclaim w hw hstart
    obtain ⟨u, hu, rest, rfl, hlength⟩ := (symbol s.pattern s.kind).munches.taken text hclaim
    rw [← hlength]
    by_contra hlonger
    have hshort : u <+: w :=
      List.prefix_of_prefix_length_le (List.prefix_append u rest) hstart (by omega)
    rw [show u = s.pattern.toList from hu, show w = t.pattern.toList from hw] at hshort
    exact h hshort
  · rintro w rfl hw
    exact h (hw ▸ List.prefix_rfl)

/-- Every sort precedes those that are tried after it. -/
theorem all_pairwise : all.Pairwise Precedes := by
  have hsame : all.Pairwise fun a b => a.start = b.start → Precedes a b := by
    rw [all, List.pairwise_append]
    refine ⟨?_, ?_, fun a ha b hb => ?_⟩
    · simp [start, float_precedes_double, float_precedes_hexadecimal, float_precedes_digits,
        double_precedes_hexadecimal, double_precedes_digits, hexadecimal_precedes_digits,
        lineComment_precedes_blockComment]
    · refine symbols_pairwise.imp ?_
      intro a b h _
      exact h
    · obtain ⟨row, hrow, rfl⟩ := List.mem_map.mp hb
      simp only [List.mem_cons, List.not_mem_nil, or_false] at ha
      rcases ha with rfl | rfl | rfl | rfl | rfl | rfl | rfl | rfl
      -- words, numbers and blanks start with other characters
      iterate 6
        intro h
        cases h
      · exact fun _ => precedes_symbol rfl lineComment_opening (by decide) hrow
      · exact fun _ => precedes_symbol rfl blockComment_opening (by decide) hrow
  refine hsame.imp_of_mem fun {a b} ha hb h => ?_
  by_cases hstart : a.start = b.start
  · exact h hstart
  · exact .of_start ha hb hstart

/-! ### The first claim -/

theorem ofClass?_eq_none {text : List Char} {sort : LexemeSort} (h : sort.claim text = 0) :
    Lexeme.ofClass? text sort.cls = none := by
  simp only [Lexeme.ofClass?, cls, h]

/-- A class that is claimed gives a lexeme of its language. -/
theorem ofClass?_eq_some {text : List Char} {sort : LexemeSort} (h : sort.claim text ≠ 0) :
    ∃ w ∈ sort.language, ∃ rest, text = w ++ rest ∧ w.length = sort.claim text ∧
      Lexeme.ofClass? text sort.cls = some ⟨sort.kind w, w, rest⟩ := by
  obtain ⟨w, hw, rest, rfl, hlength⟩ := sort.munches.taken text h
  refine ⟨w, hw, rest, rfl, hlength, ?_⟩
  obtain ⟨n, hn⟩ := Nat.exists_eq_succ_of_ne_zero h
  have hw_length : w.length = n + 1 := hlength.trans hn
  have htake : (w ++ rest).take (n + 1) = w := by rw [← hw_length, List.take_left]
  have hdrop : (w ++ rest).drop (n + 1) = rest := by rw [← hw_length, List.drop_left]
  simp only [Lexeme.ofClass?, cls, hn, htake, hdrop, spelling_of_mem hw]

/-- If every sort precedes those after it, the first claim is the longest. -/
theorem longest_of_pairwise {text : List Char} {l : Lexeme} {sorts : List LexemeSort}
    (h : sorts.Pairwise Precedes)
    (hl : (sorts.map cls).findSome? (Lexeme.ofClass? text) = some l) :
    ∀ sort ∈ sorts, ∀ w ∈ sort.language, w <+: text → w.length ≤ l.text.length := by
  induction sorts with
  | nil => exact fun _ hsort => absurd hsort List.not_mem_nil
  | cons a sorts ih =>
    obtain ⟨hafter, hsorts⟩ := List.pairwise_cons.mp h
    have hfront : ∀ w ∈ a.language, w <+: text → w.length ≤ a.claim text := by
      rintro w hw ⟨rest, rfl⟩
      exact a.munches.longest w hw rest
    rw [List.map_cons, List.findSome?_cons] at hl
    rw [List.forall_mem_cons]
    by_cases hclaim : a.claim text = 0
    · -- nothing of the first sort starts here, so a later sort gives the lexeme
      rw [ofClass?_eq_none hclaim] at hl
      refine ⟨fun w hw hstart => ?_, ih hsorts hl⟩
      have hle := hfront w hw hstart
      omega
    · -- the first sort gives it, and covers whatever a later one could take
      obtain ⟨w, _, rest, _, hlength, hfirst⟩ := ofClass?_eq_some hclaim
      rw [hfirst] at hl
      obtain rfl := Option.some.inj hl
      rw [hlength]
      exact ⟨hfront, fun b hb => (hafter b hb).covers text hclaim⟩

/-- A lexeme is a text of some sort, and a token of its kind. -/
theorem exists_of_first? {text : List Char} {l : Lexeme} (h : Lexeme.first? text = some l) :
    ∃ sort ∈ all, l.text ∈ sort.language ∧ l.kind = sort.kind l.text := by
  unfold Lexeme.first? at h
  rw [← map_cls_all] at h
  obtain ⟨_, hcls, hl⟩ := List.exists_of_findSome?_eq_some h
  obtain ⟨sort, hsort, rfl⟩ := List.mem_map.mp hcls
  by_cases hclaim : sort.claim text = 0
  · rw [ofClass?_eq_none hclaim] at hl
    cases hl
  · obtain ⟨w, hw, rest, _, _, hfirst⟩ := ofClass?_eq_some hclaim
    rw [hfirst] at hl
    obtain rfl := Option.some.inj hl
    exact ⟨sort, hsort, hw, rfl⟩

/-- Where a text of some sort stands, there is a lexeme. -/
theorem first?_isSome {text w : List Char} {sort : LexemeSort} (hsort : sort ∈ all)
    (hw : w ∈ sort.language) (hstart : w <+: text) : (Lexeme.first? text).isSome = true := by
  obtain ⟨rest, rfl⟩ := hstart
  have hclaim : sort.claim (w ++ rest) ≠ 0 := by
    have hle := sort.munches.longest w hw rest
    obtain ⟨c, v, rfl, _⟩ := exists_head hsort hw
    rw [List.length_cons] at hle
    omega
  obtain ⟨u, _, tail, _, _, hfirst⟩ := ofClass?_eq_some hclaim
  unfold Lexeme.first?
  rw [← map_cls_all, List.findSome?_isSome_iff]
  exact ⟨sort.cls, List.mem_map_of_mem hsort, by rw [hfirst]; rfl⟩

/-- No text is of two sorts. -/
theorem eq_of_mem {a b : LexemeSort} (ha : a ∈ all) (hb : b ∈ all) {w : List Char}
    (hwa : w ∈ a.language) (hwb : w ∈ b.language) : a = b := by
  have hpairwise : all.Pairwise fun a b => ∀ w ∈ a.language, w ∈ b.language → a = b :=
    all_pairwise.imp fun h w hwa hwb => absurd hwb (h.disjoint w hwa)
  have : Std.Symm fun a b : LexemeSort => ∀ w ∈ a.language, w ∈ b.language → a = b :=
    ⟨fun a b h w hwb hwa => (h w hwa hwb).symm⟩
  exact hpairwise.forall_of_forall (fun _ _ _ _ _ => rfl) ha hb w hwa hwb

end LexemeSort

/-- **The first match is the longest lexeme.** What is cut off a text is what the first fitting
rule prefers, and something is cut off wherever a lexeme stands. It is the longest of all
lexemes that the text starts with, and of exactly one sort, which says what token it makes. -/
theorem lexeme_maximal_munch (text : List Char) :
    Lexeme.first? text = Rule.all.findSome? (Rule.lexeme? text) ∧
    ((Lexeme.first? text).isSome = true ↔
      ∃ sort ∈ LexemeSort.all, ∃ w ∈ sort.language, w <+: text) ∧
    ∀ l, Lexeme.first? text = some l →
      l.text ++ l.rest = text ∧
      (∀ sort ∈ LexemeSort.all, ∀ w ∈ sort.language, w <+: text → w.length ≤ l.text.length) ∧
      ∃ sort ∈ LexemeSort.all, l.text ∈ sort.language ∧ l.kind = sort.kind l.text ∧
        ∀ other ∈ LexemeSort.all, l.text ∈ other.language → other = sort := by
  refine ⟨Lexeme.first?_eq_rules text, ⟨fun h => ?_, ?_⟩, fun l hl => ?_⟩
  · obtain ⟨l, hl⟩ := Option.isSome_iff_exists.mp h
    obtain ⟨sort, hsort, hmem, _⟩ := LexemeSort.exists_of_first? hl
    exact ⟨sort, hsort, l.text, hmem, l.rest, Lexeme.text_append_rest hl⟩
  · rintro ⟨sort, hsort, w, hw, hstart⟩
    exact LexemeSort.first?_isSome hsort hw hstart
  · obtain ⟨sort, hsort, hmem, hkind⟩ := LexemeSort.exists_of_first? hl
    refine ⟨Lexeme.text_append_rest hl, ?_, sort, hsort, hmem, hkind, fun other hother hmem' => ?_⟩
    · refine LexemeSort.longest_of_pairwise LexemeSort.all_pairwise ?_
      rw [LexemeSort.map_cls_all]
      exact hl
    · exact LexemeSort.eq_of_mem hother hsort hmem' hmem

end CactLang
