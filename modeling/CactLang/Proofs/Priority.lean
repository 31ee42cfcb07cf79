import CactLang.Proofs.Patterns

/-!
# Patterns with preferences

The lexemes are described by patterns with repetition and choice, and such a pattern may take
a text in several ways. Which of them counts is a matter of preference: of two choices the
left one, of repetitions the longest or the shortest, and what comes later gives way to what
comes earlier.

> `Regex.rests`: what is left of a text after each way of taking its front, the preferred way
> first.

The functions that claim lexemes never go back on a choice, but the patterns do.

> `Lexeme.first?_eq_rules`: the lexeme that is cut off is still the preferred one of the first
> pattern in the table that takes anything.
-/

namespace CactLang

open Claim (isWordStart isWordRest isHexDigit)
open Pattern (isExponentMark isSign isFloatMark isHexMark isSign_of_isDigit
  isExponentMark_of_isDigit isFloatMark_of_isDigit isFloatMark_of_isExponentMark)
open Text (isBlank)

/-- A pattern for the front of a text. -/
inductive Regex where
  /-- Nothing at all. -/
  | empty
  /-- One character of a sort. -/
  | one (p : Char → Bool)
  /-- One pattern after the other. -/
  | seq (a b : Regex)
  /-- One of two patterns, rather the first. -/
  | alt (a b : Regex)
  /-- Characters of a sort, as many as possible. -/
  | many (p : Char → Bool)
  /-- Characters of a sort, as few as possible. -/
  | few (p : Char → Bool)

namespace Regex

/-! ## Ways to take a text -/

/-- What is left after characters of a sort, most of them taken first. -/
def afterMany (p : Char → Bool) : List Char → List (List Char)
  | [] => [[]]
  | c :: text => if p c then afterMany p text ++ [c :: text] else [c :: text]

/-- What is left after characters of a sort, fewest of them taken first. -/
def afterFew (p : Char → Bool) : List Char → List (List Char)
  | [] => [[]]
  | c :: text => if p c then (c :: text) :: afterFew p text else [c :: text]

/-- What is left after each way of taking the front of a text, the preferred way first. -/
def rests : Regex → List Char → List (List Char)
  | empty, text => [text]
  | one p, text =>
    match text with
    | [] => []
    | c :: rest => if p c then [rest] else []
  | seq a b, text => (a.rests text).flatMap b.rests
  | alt a b, text => a.rests text ++ b.rests text
  | many p, text => afterMany p text
  | few p, text => afterFew p text

/-- At least one character of a sort, as many as possible. -/
def plus (p : Char → Bool) : Regex :=
  seq (one p) (many p)

/-- The pattern, rather than nothing. -/
def optional (a : Regex) : Regex :=
  alt a empty

/-- A fixed text. -/
def fixed : List Char → Regex
  | [] => empty
  | c :: text => seq (one (· = c)) (fixed text)

/-! ## Going on after a pattern -/

/-- Takes the front of a text in the first way after which `next` succeeds. -/
def run (r : Regex) (next : List Char → Option (List Char)) (text : List Char) :
    Option (List Char) :=
  (r.rests text).findSome? next

variable {p : Char → Bool} {a b : Regex} {next : List Char → Option (List Char)}
  {c : Char} {text rest w : List Char}

/-- The preferred rest is what a run finds. -/
theorem head?_rests (r : Regex) (text : List Char) : (r.rests text).head? = r.run some text := by
  show _ = (r.rests text).findSome? some
  cases r.rests text <;> rfl

@[simp] theorem run_empty : empty.run next text = next text := by
  show [text].findSome? next = next text
  simp

@[simp] theorem run_one_nil : (one p).run next [] = none :=
  rfl

@[simp] theorem run_one_cons : (one p).run next (c :: text) = if p c then next text else none := by
  show (if p c then [text] else []).findSome? next = _
  split <;> simp

@[simp] theorem run_seq : (seq a b).run next = a.run (b.run next) := by
  funext text
  show ((a.rests text).flatMap b.rests).findSome? next = (a.rests text).findSome? (b.run next)
  induction a.rests text with
  | nil => rfl
  | cons rest rests ih =>
    have hrun : (b.rests rest).findSome? next = b.run next rest := rfl
    rw [List.flatMap_cons, List.findSome?_append, List.findSome?_cons, ih, hrun]
    cases b.run next rest <;> rfl

@[simp] theorem run_alt : (alt a b).run next text = (a.run next text).or (b.run next text) :=
  List.findSome?_append

@[simp] theorem run_optional :
    (optional a).run next text = (a.run next text).or (next text) := by
  rw [optional, run_alt, run_empty]

/-- A greedy repetition goes on first, and stops if that leads nowhere. -/
theorem run_many_cons :
    (many p).run next (c :: text) =
      if p c then ((many p).run next text).or (next (c :: text)) else next (c :: text) := by
  show (if p c then afterMany p text ++ [c :: text] else [c :: text]).findSome? next = _
  split
  · rw [List.findSome?_append, List.findSome?_singleton]
    rfl
  · exact List.findSome?_singleton

/-- A reluctant repetition stops first, and goes on if that leads nowhere. -/
theorem run_few_cons :
    (few p).run next (c :: text) =
      if p c then (next (c :: text)).or ((few p).run next text) else next (c :: text) := by
  show (if p c then (c :: text) :: afterFew p text else [c :: text]).findSome? next = _
  split
  · rw [List.findSome?_cons]
    cases next (c :: text) <;> rfl
  · exact List.findSome?_singleton

/-! ### Repetitions that are not gone back on -/

/-- What follows a repetition succeeds on what it leaves, or fails wherever a character of the
repetition comes first. Either way the repetition takes all it can. -/
def Settles (p : Char → Bool) (next : List Char → Option (List Char)) (rest : List Char) : Prop :=
  (next rest).isSome = true ∨ ∀ c text, p c = true → next (c :: text) = none

/-- A repetition that leads on after all of its characters does not give any back. -/
theorem run_many_append (hw : ∀ c ∈ w, p c = true)
    (hrest : ∀ c, rest.head? = some c → p c = false) (h : Settles p next rest) :
    (many p).run next (w ++ rest) = next rest := by
  induction w with
  | nil =>
    cases rest with
    | nil => exact List.findSome?_singleton
    | cons c rest =>
      rw [List.nil_append, run_many_cons, hrest c rfl]
      rfl
  | cons c w ih =>
    obtain ⟨hc, hw⟩ := List.forall_mem_cons.mp hw
    rw [List.cons_append, run_many_cons, if_pos hc, ih hw]
    rcases h with h | h
    · exact Option.or_of_isSome h
    · rw [h c _ hc, Option.or_none]

/-- A repetition goes on through the whole run of its characters. -/
theorem run_many (h : Settles p next (text.drop (Claim.run p text))) :
    (many p).run next text = next (text.drop (Claim.run p text)) := by
  obtain ⟨w, rest, rfl, hlength, hw, hrest⟩ := Claim.run_split p text
  rw [← hlength, List.drop_left] at h ⊢
  exact run_many_append hw hrest h

/-- A repetition of at least one character fails where there is none. -/
theorem run_plus (h : Settles p next (text.drop (Claim.run p text))) :
    (plus p).run next text =
      if Claim.run p text = 0 then none else next (text.drop (Claim.run p text)) := by
  rw [plus, run_seq]
  cases text with
  | nil => rfl
  | cons c text =>
    rw [run_one_cons]
    by_cases hc : p c = true
    · have hrun : Claim.run p (c :: text) = Claim.run p text + 1 := by
        unfold Claim.run
        rw [List.takeWhile_cons_of_pos hc, List.length_cons]
      rw [hrun, List.drop_succ_cons] at h ⊢
      rw [if_pos hc, if_neg (Nat.succ_ne_zero _), run_many h]
    · rw [if_neg hc, Claim.run_cons_neg (by simpa using hc)]
      rfl

/-- Nothing follows. -/
theorem settles_some : Settles p some rest :=
  .inl rfl

/-! ## The patterns -/

/-- The pattern prefers what is claimed, and takes nothing where there is no claim. -/
def Prefers (r : Regex) (claim : List Char → Nat) : Prop :=
  ∀ text, (r.rests text).head? = if claim text = 0 then none else some (text.drop (claim text))

/-- A word: `[a-zA-Z_][a-zA-Z0-9_]*`. -/
def word : Regex :=
  seq (one isWordStart) (many isWordRest)

/-- A name or keyword is preferred as long as it can be. -/
theorem word_prefers : Prefers word Claim.word := by
  intro text
  rw [head?_rests, word, run_seq]
  cases text with
  | nil => rfl
  | cons c text =>
    rw [run_one_cons, Claim.word]
    split
    · rw [run_many settles_some]
      rfl
    · rfl

/-- A run is preferred as long as it can be. -/
theorem plus_prefers (p : Char → Bool) : Prefers (plus p) (Claim.run p) := by
  intro text
  rw [head?_rests, run_plus settles_some]

/-- A hexadecimal number: `0[xX][0-9a-fA-F]+`. -/
def hexadecimal : Regex :=
  seq (one (· = '0')) (seq (one isHexMark) (plus isHexDigit))

/-- A hexadecimal number is preferred as long as it can be. -/
theorem hexadecimal_prefers : Prefers hexadecimal Claim.hexadecimal := by
  intro text
  rw [head?_rests, hexadecimal, run_seq]
  by_cases hmarked : ∃ x rest, text = '0' :: x :: rest ∧ isHexMark x = true
  · obtain ⟨x, rest, rfl, hx⟩ := hmarked
    rw [run_one_cons, run_seq, run_one_cons, run_plus settles_some, Claim.hexadecimal_cons hx]
    by_cases hzero : Claim.run isHexDigit rest = 0
    · simp [hzero]
    · simp [hx, hzero]
  · -- without the two marks at the start both sides take nothing
    have hclaim : Claim.hexadecimal text = 0 := by
      unfold Claim.hexadecimal
      split
      next x rest => exact if_neg fun hx => hmarked ⟨x, rest, rfl, hx⟩
      next => rfl
    rw [if_pos hclaim]
    cases text with
    | nil => rfl
    | cons c text =>
      rw [run_one_cons, run_seq]
      cases text with
      | nil => rw [run_one_nil, ite_self]
      | cons x text =>
        rw [run_one_cons]
        by_cases hc : c = '0'
        · rw [if_pos (by simpa using hc), if_neg fun hx => hmarked ⟨x, text, by rw [hc], hx⟩]
        · rw [if_neg (by simpa using hc)]

/-! ### Layout and symbols -/

/-- A fixed text is compared character by character. -/
theorem run_fixed (symbol : List Char) :
    (fixed symbol).run next text =
      if symbol.isPrefixOf text then next (text.drop symbol.length) else none := by
  induction symbol generalizing text with
  | nil => simp [fixed]
  | cons c symbol ih =>
    rw [fixed, run_seq]
    cases text with
    | nil => simp
    | cons d text =>
      rw [run_one_cons, ih]
      by_cases hd : d = c
      · simp [hd]
      · simp [hd, Ne.symm hd]

/-- A fixed text has one length only. -/
theorem fixed_prefers {symbol : List Char} (h : symbol ≠ []) :
    Prefers (fixed symbol) (Claim.fixed symbol symbol) := by
  intro text
  rw [head?_rests, run_fixed, Claim.fixed]
  split
  · rw [if_neg (by simpa using h)]
  · rfl

/-- A comment to the end of the line: `//[^\n]*`. -/
def lineComment : Regex :=
  seq (fixed "//".toList) (many (· ≠ '\n'))

/-- A line comment is preferred as long as it can be. -/
theorem lineComment_prefers : Prefers lineComment Claim.lineComment := by
  intro text
  rw [head?_rests, lineComment, run_seq, run_fixed]
  split
  next hstart =>
    obtain ⟨rest, rfl⟩ := List.isPrefixOf_iff_prefix.mp hstart
    rw [List.drop_left, run_many settles_some]
    rfl
  next hstart =>
    have hclaim : Claim.lineComment text = 0 := by
      unfold Claim.lineComment
      split
      next => exact absurd rfl hstart
      next => rfl
    rw [if_pos hclaim]

/-- A comment up to its end: `/\*[\s\S]*?\*/`. -/
def blockComment : Regex :=
  seq (fixed "/*".toList) (seq (few fun _ => true) (fixed "*/".toList))

/-- A reluctant repetition stops at the first closing mark. -/
theorem run_few_end (text : List Char) :
    (few fun _ => true).run ((fixed "*/".toList).run some) text =
      (Claim.commentEnd? text).map (text.drop ·) := by
  induction text using Claim.commentEnd?.induct with
  | case1 => rfl
  | case2 rest => rfl
  | case3 c text hstart ih =>
    have hfixed : (fixed "*/".toList).run some (c :: text) = none := by
      rw [run_fixed, if_neg]
      intro h
      obtain ⟨rest, hrest⟩ := List.isPrefixOf_iff_prefix.mp h
      obtain ⟨rfl, rfl⟩ := List.cons.inj hrest
      exact hstart rest rfl rfl
    rw [run_few_cons, if_pos rfl, hfixed, Option.none_or, ih, Claim.commentEnd?]
    · rw [Option.map_map]
      rfl
    · exact hstart

/-- A block comment is preferred up to its first closing mark. -/
theorem blockComment_prefers : Prefers blockComment Claim.blockComment := by
  intro text
  rw [head?_rests, blockComment, run_seq, run_fixed]
  split
  -- a comment may be left open, and then neither side takes anything
  next hstart =>
    obtain ⟨rest, rfl⟩ := List.isPrefixOf_iff_prefix.mp hstart
    have hclaim : Claim.blockComment ("/*".toList ++ rest) =
        ((Claim.commentEnd? rest).map (· + 2)).getD 0 := by
      show Claim.blockComment ('/' :: '*' :: rest) = _
      rw [Claim.blockComment]
      cases Claim.commentEnd? rest <;> rfl
    rw [List.drop_left, run_seq, run_few_end, hclaim]
    cases Claim.commentEnd? rest <;> rfl
  next hstart =>
    have hclaim : Claim.blockComment text = 0 := by
      unfold Claim.blockComment
      split
      next => exact absurd rfl hstart
      next => rfl
    rw [if_pos hclaim]

/-! ### Numbers -/

/-- What follows a number succeeds always, or fails wherever the number could go on. -/
def Commits (next : List Char → Option (List Char)) : Prop :=
  (∀ text, (next text).isSome = true) ∨
    ∀ c text, c.isDigit = true ∨ isExponentMark c = true → next (c :: text) = none

/-- What needs no digit next does not make the digits before it give any back. -/
theorem Commits.settles (h : Commits next) : Settles Char.isDigit next rest := by
  rcases h with h | h
  · exact .inl (h rest)
  · exact .inr fun c text hc => h c text (.inl hc)

theorem run_digits (h : Settles Char.isDigit next (text.drop (Claim.digits text))) :
    (plus Char.isDigit).run next text =
      if Claim.digits text = 0 then none else next (text.drop (Claim.digits text)) :=
  run_plus h

/-- A sign is taken where there is one. -/
theorem run_sign (h : ∀ c text, isSign c = true → next (c :: text) = none) :
    (optional (one isSign)).run next text = next (text.drop (Claim.sign text)) := by
  rw [run_optional]
  cases text with
  | nil => rfl
  | cons c text =>
    rw [run_one_cons]
    by_cases hc : isSign c = true
    · have hsign : Claim.sign (c :: text) = 1 := if_pos hc
      rw [if_pos hc, h c text hc, Option.or_none, hsign]
      rfl
    · have hsign : Claim.sign (c :: text) = 0 := if_neg hc
      rw [if_neg hc, hsign]
      rfl

/-- An exponent: `[eE][+-]?[0-9]+`. -/
def exponent : Regex :=
  seq (one isExponentMark) (seq (optional (one isSign)) (plus Char.isDigit))

/-- An exponent is taken where there is a whole one. -/
theorem run_exponent (h : Commits next) :
    exponent.run next text =
      if Claim.exponent text = 0 then none else next (text.drop (Claim.exponent text)) := by
  rw [exponent, run_seq]
  cases text with
  | nil => rfl
  | cons c text =>
    rw [run_one_cons]
    by_cases hc : isExponentMark c = true
    · -- leaving out a sign that is there would make a digit of it
      have hsign : ∀ c text, isSign c = true →
          (plus Char.isDigit).run next (c :: text) = none := by
        intro c text hc
        have hdigit : ¬c.isDigit = true := by
          intro hdigit
          rw [isSign_of_isDigit hdigit] at hc
          cases hc
        rw [plus, run_seq, run_one_cons, if_neg hdigit]
      rw [if_pos hc, run_seq, run_sign hsign, run_digits h.settles, Claim.exponent_cons hc]
      split
      · rfl
      · rw [if_neg (Nat.succ_ne_zero _), List.drop_succ_cons, List.drop_drop, Nat.add_comm]
    · have hclaim : Claim.exponent (c :: text) = 0 := if_neg hc
      rw [if_neg hc, if_pos hclaim]

theorem exponent_of_isDigit (h : c.isDigit = true) : Claim.exponent (c :: text) = 0 :=
  if_neg (Bool.eq_false_iff.mp (isExponentMark_of_isDigit h))

/-- An exponent is taken if there is one. -/
theorem run_optional_exponent (h : Commits next) :
    (optional exponent).run next text = next (text.drop (Claim.exponent text)) := by
  rw [run_optional, run_exponent h]
  by_cases hzero : Claim.exponent text = 0
  · rw [if_pos hzero, hzero]
    rfl
  · rw [if_neg hzero]
    rcases h with h | h
    · exact Option.or_of_isSome (h _)
    · -- going back would leave the mark of the exponent
      cases text with
      | nil => exact absurd rfl hzero
      | cons c text =>
        have hc : isExponentMark c = true := by
          by_contra hc
          exact hzero (if_neg hc)
        rw [h c text (.inr hc), Option.or_none]

/-- A double, with `e` for an exponent: `([0-9]*\.[0-9]+|[0-9]+\.)e?|[0-9]+e`. -/
def double : Regex :=
  alt
    (seq
      (alt (seq (many Char.isDigit) (seq (one (· = '.')) (plus Char.isDigit)))
        (seq (plus Char.isDigit) (one (· = '.'))))
      (optional exponent))
    (seq (plus Char.isDigit) exponent)

/-- Digits before a point or an exponent are all taken. -/
theorem run_digits_append {ds tail : List Char} (hds : ∀ c ∈ ds, c.isDigit = true)
    (htail : ∀ c, tail.head? = some c → c.isDigit = false) (h : Settles Char.isDigit next tail) :
    (plus Char.isDigit).run next (ds ++ tail) = if ds.length = 0 then none else next tail := by
  have hdigits : Claim.digits (ds ++ tail) = ds.length := by
    unfold Claim.digits
    rw [Claim.run_append hds]
    cases tail with
    | nil => rfl
    | cons c tail => rw [Claim.run_cons_neg (htail c rfl), Nat.add_zero]
  have hdrop : (ds ++ tail).drop (Claim.digits (ds ++ tail)) = tail := by
    rw [hdigits, List.drop_left]
  rw [run_digits (hdrop.symm ▸ h), hdrop, hdigits]

theorem run_point : (one (· = '.')).run next ('.' :: rest) = next rest := by
  simp

theorem settles_point {k : List Char → Option (List Char)} :
    Settles Char.isDigit ((one (· = '.')).run k) rest := by
  refine .inr fun c text hc => ?_
  rw [run_one_cons, if_neg (by simpa using Pattern.ne_of_isDigit hc rfl)]

/-- Before an exponent, digits are not given back. -/
theorem settles_exponent (h : Commits next) : Settles Char.isDigit (exponent.run next) rest := by
  refine .inr fun c text hc => ?_
  rw [run_exponent h, exponent_of_isDigit hc]
  rfl

/-- Before an exponent that may be missing, digits are not given back. -/
theorem settles_optional_exponent (h : Commits next) :
    Settles Char.isDigit ((optional exponent).run next) rest := by
  have hrun : ∀ text, (optional exponent).run next text =
      next (text.drop (Claim.exponent text)) := fun text => run_optional_exponent h
  rcases h with h | h
  · exact .inl (by rw [hrun]; exact h _)
  · refine .inr fun c text hc => ?_
    rw [hrun, exponent_of_isDigit hc]
    exact h c text (.inl hc)

/-- A number with digits, a point and perhaps digits. -/
theorem run_double_point (h : Commits next) {ds : List Char}
    (hds : ∀ c ∈ ds, c.isDigit = true) (rest : List Char) :
    double.run next (ds ++ '.' :: rest) =
      if Claim.double (ds ++ '.' :: rest) = 0 then none
      else next ((ds ++ '.' :: rest).drop (Claim.double (ds ++ '.' :: rest))) := by
  have hpoint : ∀ c, ('.' :: rest).head? = some c → c.isDigit = false := by
    intro c hc
    obtain rfl := Option.some.inj hc
    rfl
  -- the third form of a double needs an exponent where the point is
  have hexponent : exponent.run next ('.' :: rest) = none := by
    rw [run_exponent h]
    rfl
  simp only [double, run_alt, run_seq]
  rw [run_many_append hds hpoint settles_point, run_digits_append hds hpoint settles_point,
    run_digits_append hds hpoint (settles_exponent h), run_point, run_point,
    run_digits (settles_optional_exponent h), run_optional_exponent h, run_optional_exponent h,
    hexponent, ite_self, Option.or_none, Claim.double_point hds]
  have hdrop : ∀ m n, (ds ++ '.' :: rest).drop (ds.length + 1 + m + n) = (rest.drop m).drop n := by
    intro m n
    rw [Nat.add_assoc, Nat.add_assoc, List.drop_length_add_append, Nat.add_comm 1,
      List.drop_succ_cons, List.drop_drop]
  by_cases hdigits : Claim.digits rest = 0
  · -- no digits after the point: the first form fails, and the second needs some before it
    by_cases hlength : ds.length = 0
    · simp [hdigits, hlength]
    · have hnone := hdrop 0 (Claim.exponent rest)
      rw [Nat.add_zero, List.drop_zero] at hnone
      simp [hdigits, hlength, hnone]
  · -- after a shorter number a digit would follow
    have hback : ∀ result, (next result).or
        (if ds.length = 0 then none else next (rest.drop (Claim.exponent rest))) = next result := by
      intro result
      rcases h with h | h
      · exact Option.or_of_isSome (h result)
      · obtain ⟨c, text, rfl, hc⟩ := Claim.run_head hdigits
        rw [exponent_of_isDigit hc, List.drop_zero, h c text (.inl hc), ite_self, Option.or_none]
    have hsome : ds.length + Claim.digits rest ≠ 0 := by omega
    rw [if_neg hdigits, hback, if_neg hsome, if_neg (by omega), hdrop]

/-- A number with digits and no point. -/
theorem run_double_noPoint (h : Commits next) {ds tail : List Char}
    (hds : ∀ c ∈ ds, c.isDigit = true)
    (htail : ∀ c, tail.head? = some c → c.isDigit = false ∧ c ≠ '.') :
    double.run next (ds ++ tail) =
      if Claim.double (ds ++ tail) = 0 then none
      else next ((ds ++ tail).drop (Claim.double (ds ++ tail))) := by
  have hdigit : ∀ c, tail.head? = some c → c.isDigit = false := fun c hc => (htail c hc).1
  -- the first two forms need a point, so only the third is left
  have hpoint : ∀ k, (one (· = '.')).run k tail = none := by
    intro k
    cases tail with
    | nil => rfl
    | cons c tail => rw [run_one_cons, if_neg (by simpa using (htail c rfl).2)]
  simp only [double, run_alt, run_seq]
  rw [run_many_append hds hdigit settles_point, run_digits_append hds hdigit settles_point,
    run_digits_append hds hdigit (settles_exponent h), hpoint, hpoint, ite_self, Option.or_none,
    Option.none_or, run_exponent h, Claim.double_noPoint hds htail]
  by_cases hlength : ds.length = 0
  · simp [hlength]
  · by_cases hexponent : Claim.exponent tail = 0
    · simp [hlength, hexponent]
    · simp [hlength, hexponent, List.drop_length_add_append]

/-- The alternatives of a double come to the longest one. -/
theorem run_double (h : Commits next) :
    double.run next text =
      if Claim.double text = 0 then none else next (text.drop (Claim.double text)) := by
  obtain ⟨ds, tail, rfl, _, hds, ⟨rest, rfl⟩ | htail⟩ := Claim.digits_split text
  · exact run_double_point h hds rest
  · exact run_double_noPoint h hds htail

-- all of it, all but the exponent, and what ends with the point
example : double.rests "1.5e3".toList = ["".toList, "e3".toList, "5e3".toList] := by
  decide

/-- A double is preferred as long as it can be. -/
theorem double_prefers : Prefers double Claim.double := by
  intro text
  rw [head?_rests, run_double (.inl fun _ => rfl)]

/-- A float: a double and `[fF]`. -/
def float : Regex :=
  seq double (one isFloatMark)

/-- A float is a double and a mark, and the double does not give anything back for it. -/
theorem float_prefers : Prefers float Claim.float := by
  -- a shorter double would leave a digit or an exponent, and neither is the mark of a float
  have hcommits : Commits ((one isFloatMark).run some) := by
    refine .inr fun c text hc => ?_
    have hmark : isFloatMark c = false := by
      rcases hc with hc | hc
      · exact isFloatMark_of_isDigit hc
      · exact isFloatMark_of_isExponentMark hc
    rw [run_one_cons, hmark]
    rfl
  intro text
  rw [head?_rests, float, run_seq, run_double hcommits]
  by_cases hzero : Claim.double text = 0
  · have hclaim : Claim.float text = 0 := by
      unfold Claim.float
      rw [hzero]
    rw [if_pos hzero, if_pos hclaim]
  · obtain ⟨w, hw, tail, rfl, hlength⟩ := Claim.double_munches.taken text hzero
    have hne : w ≠ [] := ne_of_mem_of_not_mem hw Pattern.nil_notMem_double
    rw [if_neg hzero, Claim.float_append hlength hne, ← hlength, List.drop_left]
    cases tail with
    | nil => rfl
    | cons c tail =>
      rw [run_one_cons]
      by_cases hc : isFloatMark c = true
      · simp [hc, List.drop_length_add_append]
      · simp [hc]

end Regex

/-! ## The table of rules -/

/-- A pattern, and the token that the text it takes makes. -/
structure Rule where
  regex : Regex
  kind : List Char → Option TokenKind

namespace Rule

/-- A pattern for layout. -/
def layout (regex : Regex) : Rule :=
  ⟨regex, fun _ => none⟩

/-- A pattern whose texts are tokens of one kind. -/
def token (kind : TokenKind) (regex : Regex) : Rule :=
  ⟨regex, fun _ => some kind⟩

/-- Every rule, in the order in which they are tried. -/
def all : List Rule :=
  [⟨.word, fun text => some (TokenKind.ofWord (String.ofList text))⟩,
    token .floatLiteral .float,
    token .doubleLiteral .double,
    token .integerLiteral .hexadecimal,
    token .integerLiteral (.plus Char.isDigit),
    layout (.plus isBlank),
    layout .lineComment,
    layout .blockComment] ++
  symbols.map fun row => token row.kind (.fixed row.pattern.toList)

/-- The lexeme that a rule takes off the front of a text: what its pattern prefers. -/
def lexeme? (text : List Char) (rule : Rule) : Option Lexeme :=
  (rule.regex.rests text).head?.map fun rest =>
    let taken := text.take (text.length - rest.length)
    ⟨rule.kind taken, taken, rest⟩

/-- A rule does what a class does. -/
structure Agrees (rule : Rule) (cls : LexemeClass) : Prop where
  kind : rule.kind = cls.kind
  prefers : rule.regex.Prefers cls.claim

/-- A rule and a class that agree find the same lexeme. -/
theorem Agrees.lexeme?_eq {rule : Rule} {cls : LexemeClass} (h : rule.Agrees cls)
    (hcls : cls ∈ LexemeClass.all) (text : List Char) :
    rule.lexeme? text = Lexeme.ofClass? text cls := by
  rw [lexeme?, h.prefers, h.kind, Lexeme.ofClass?]
  cases hclaim : cls.claim text with
  | zero => rfl
  | succ n =>
    have htake : text.take (text.length - (text.drop (n + 1)).length) = text.take (n + 1) := by
      rw [List.length_drop, List.take_eq_take_iff]
      omega
    have hspelling := LexemeClass.spelling_take hcls text (by omega)
    rw [hclaim] at hspelling
    rw [if_neg (Nat.succ_ne_zero n), Option.map_some]
    simp only [htake, hspelling]

/-- The rules and the classes stand in the same order. -/
theorem all_agree : List.Forall₂ Agrees all LexemeClass.all := by
  refine List.rel_append ?_ ?_
  · exact .cons ⟨rfl, Regex.word_prefers⟩ <| .cons ⟨rfl, Regex.float_prefers⟩ <|
      .cons ⟨rfl, Regex.double_prefers⟩ <| .cons ⟨rfl, Regex.hexadecimal_prefers⟩ <|
      .cons ⟨rfl, Regex.plus_prefers _⟩ <| .cons ⟨rfl, Regex.plus_prefers _⟩ <|
      .cons ⟨rfl, Regex.lineComment_prefers⟩ <| .cons ⟨rfl, Regex.blockComment_prefers⟩ .nil
  · rw [List.forall₂_map_left_iff, List.forall₂_map_right_iff, List.forall₂_same]
    intro row hrow
    obtain ⟨hagree, hne⟩ := Pattern.symbols_proper row hrow
    refine ⟨rfl, ?_⟩
    show Regex.Prefers _ (Claim.fixed row.pattern.toList row.literal.toList)
    rw [hagree]
    exact Regex.fixed_prefers hne

end Rule

/-- **The lexeme of a text is the one that the first fitting rule prefers.** -/
theorem Lexeme.first?_eq_rules (text : List Char) :
    first? text = Rule.all.findSome? (Rule.lexeme? text) := by
  have hsame : ∀ {rules classes}, List.Forall₂ Rule.Agrees rules classes →
      (∀ cls ∈ classes, cls ∈ LexemeClass.all) →
      classes.findSome? (ofClass? text) = rules.findSome? (Rule.lexeme? text) := by
    intro rules classes h hall
    induction h with
    | nil => rfl
    | cons hrule _ ih =>
      obtain ⟨hcls, hclasses⟩ := List.forall_mem_cons.mp hall
      rw [List.findSome?_cons, List.findSome?_cons, hrule.lexeme?_eq hcls, ih hclasses]
  exact hsame Rule.all_agree fun _ hcls => hcls

end CactLang
