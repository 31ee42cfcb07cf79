import CactLang.Proofs.Layout
import CactLang.Proofs.MaximalMunch

/-!
# Scanning tokens again

Tokens may stand in a source with nothing between them, as in `1.5e`, `0x` or `/=`. If their texts
are written out again with blanks in between, each of them is scanned as what it was.

> `LexemeSort.first?_again`: a text that makes a token makes the same token wherever a blank or
> nothing follows it.

No lexeme other than layout has a blank in it, so what is cut off such a text ends before the blank
at the latest. It does not end earlier, because it is the longest lexeme.
-/

namespace CactLang

open Claim (isWordStart isWordRest isHexDigit)
open Text (isBlank width)

/-! ## Lexemes in front of blanks -/

namespace LexemeSort

section

variable {c : Char}

/-- The characters of words, numbers and symbols are not blank. -/
theorem isBlank_eq_false (hlow : 33 ≤ c.toNat) (hhigh : c.toNat ≤ 132) : isBlank c = false := by
  refine Bool.eq_false_iff.mpr fun hblank => ?_
  have hrange := isBlank_range hblank
  omega

theorem isBlank_of_isDigit (h : c.isDigit = true) : isBlank c = false := by
  have hrange := isDigit_iff.mp h
  exact isBlank_eq_false (by omega) (by omega)

theorem isBlank_of_isWordStart (h : isWordStart c = true) : isBlank c = false := by
  have hrange := isWordStart_iff.mp h
  exact isBlank_eq_false (by omega) (by omega)

theorem isBlank_of_isWordRest (h : isWordRest c = true) : isBlank c = false := by
  have hcases : isWordStart c = true ∨ c.isDigit = true := by
    unfold isWordRest Char.isAlphanum at h
    unfold isWordStart
    simp only [Bool.or_eq_true] at h ⊢
    rcases h with (h | h) | h
    · exact .inl (.inl h)
    · exact .inr h
    · exact .inl (.inr h)
  rcases hcases with h | h
  · exact isBlank_of_isWordStart h
  · exact isBlank_of_isDigit h

/-- Neither of two characters is blank. -/
theorem isBlank_of_or {a b : Char} (ha : isBlank a = false) (hb : isBlank b = false)
    (h : (decide (c = a) || decide (c = b)) = true) : isBlank c = false := by
  rw [Bool.or_eq_true, decide_eq_true_iff, decide_eq_true_iff] at h
  rcases h with rfl | rfl
  · exact ha
  · exact hb

theorem isBlank_of_isHexDigit (h : isHexDigit c = true) : isBlank c = false := by
  unfold isHexDigit at h
  simp only [Bool.or_eq_true, Bool.and_eq_true, decide_eq_true_iff] at h
  rcases h with (h | ⟨hlow, hhigh⟩) | ⟨hlow, hhigh⟩
  · exact isBlank_of_isDigit h
  · have hlow : 97 ≤ c.toNat := hlow
    have hhigh : c.toNat ≤ 102 := hhigh
    exact isBlank_eq_false (by omega) (by omega)
  · have hlow : 65 ≤ c.toNat := hlow
    have hhigh : c.toNat ≤ 70 := hhigh
    exact isBlank_eq_false (by omega) (by omega)

end

theorem double_notBlank : Pattern.Over (isBlank · = false) Pattern.double :=
  Pattern.double_over_of (fun _ => isBlank_of_isDigit) (fun _ => isBlank_of_or rfl rfl)
    (fun _ => isBlank_of_or rfl rfl) rfl

/-- Only layout has blanks. -/
theorem notBlank {sort : LexemeSort} (hsort : sort ∈ all) {w : List Char}
    (hw : w ∈ sort.language) {kind : TokenKind} (hkind : sort.kind w = some kind) :
    ∀ c ∈ w, isBlank c = false := by
  cases sort with
  | word =>
    exact (Pattern.Over.one fun _ => isBlank_of_isWordStart).mul
      (.many fun _ => isBlank_of_isWordRest) w hw
  | float => exact double_notBlank.mul (.one fun _ => isBlank_of_or rfl rfl) w hw
  | double => exact double_notBlank w hw
  | hexadecimal =>
    have hzero : Pattern.Over (isBlank · = false) (Pattern.literal "0") :=
      .literal (List.forall_mem_singleton.mpr rfl)
    have hdigit : ∀ c, isHexDigit c = true → isBlank c = false := fun _ => isBlank_of_isHexDigit
    exact hzero.mul ((Pattern.Over.one fun _ => isBlank_of_or rfl rfl).mul
      ((Pattern.Over.one hdigit).mul (.many hdigit))) w hw
  | digits =>
    have hdigit : ∀ c : Char, c.isDigit = true → isBlank c = false := fun _ => isBlank_of_isDigit
    exact (Pattern.Over.one hdigit).mul (.many hdigit) w hw
  -- the three sorts that contain blanks give no token
  | blanks => cases hkind
  | lineComment => cases hkind
  | blockComment => cases hkind
  | symbol text k =>
    have hall : ∀ row ∈ symbols, row.pattern.toList.all (!isBlank ·) = true := by decide
    obtain ⟨row, hrow, rfl, _⟩ := symbol_mem_all hsort
    have hsymbol := List.all_eq_true.mp (hall row hrow)
    rw [show w = row.pattern.toList from hw]
    intro c hc
    simpa using hsymbol c hc

/-- The text of a token opens no comment. -/
theorem opens_no_comment {sort : LexemeSort} (hsort : sort ∈ all) {w : List Char}
    (hw : w ∈ sort.language) {kind : TokenKind} (hkind : sort.kind w = some kind) :
    ¬"//".toList <+: w ∧ ¬"/*".toList <+: w := by
  -- a comment starts as symbols do
  have hslash : sort.start = .mark ∨ ∀ v, w ≠ '/' :: v := by
    obtain ⟨c, u, rfl, hc⟩ := exists_head hsort hw
    by_cases hmark : sort.start = .mark
    · exact .inl hmark
    · refine .inr fun v heq => hmark ?_
      obtain ⟨rfl, _⟩ := List.cons.inj heq
      exact hc.symm.trans (by decide)
  rcases hslash with hmark | hslash
  · cases sort with
    | symbol text k =>
      have hall : ∀ row ∈ symbols,
          ¬"//".toList <+: row.pattern.toList ∧ ¬"/*".toList <+: row.pattern.toList := by
        decide
      obtain ⟨row, hrow, rfl, _⟩ := symbol_mem_all hsort
      rw [show w = row.pattern.toList from hw]
      exact hall row hrow
    | lineComment => cases hkind
    | blockComment => cases hkind
    | _ => cases hmark
  · constructor
    · rintro ⟨v, hv⟩
      exact hslash _ hv.symm
    · rintro ⟨v, hv⟩
      exact hslash _ hv.symm

/-- What two characters open that are not blank is opened before a blank. -/
theorem opens_before_blank {x y b : Char} {w u : List Char} (hw : w ≠ []) (hy : isBlank y = false)
    (hb : isBlank b = true) (h : [x, y] <+: w ++ b :: u) : [x, y] <+: w := by
  obtain ⟨v, hv⟩ := h
  match w with
  | [] => exact absurd rfl hw
  | [c] =>
    obtain ⟨_, htail⟩ := List.cons.inj hv
    obtain ⟨rfl, _⟩ := List.cons.inj htail
    rw [hy] at hb
    cases hb
  | c :: d :: w =>
    obtain ⟨rfl, htail⟩ := List.cons.inj hv
    obtain ⟨rfl, _⟩ := List.cons.inj htail
    exact List.prefix_append [x, y] w

/-- No lexeme goes on from the text of a token through a blank. -/
theorem stops_at_blank {sort sort' : LexemeSort} (hsort : sort ∈ all) (hsort' : sort' ∈ all)
    {w u : List Char} {b : Char} (hw : w ∈ sort.language) {kind : TokenKind}
    (hkind : sort.kind w = some kind) (hb : isBlank b = true) :
    w ++ b :: u ∉ sort'.language := by
  intro hlonger
  obtain ⟨c, v, rfl, _⟩ := exists_head hsort hw
  have hopen := opens_no_comment hsort hw hkind
  cases hkind' : sort'.kind (c :: v ++ b :: u) with
  | some kind' =>
    -- the longer text would be a token with a blank in it
    have hblank := notBlank hsort' hlonger hkind' b (by simp)
    rw [hb] at hblank
    cases hblank
  | none =>
    -- it would be blanks or a comment, and neither starts as a token does
    cases sort' with
    | blanks =>
      have hc : isBlank c = true := (Pattern.mem_one_mul_many.mp hlonger).2 c List.mem_cons_self
      rw [notBlank hsort hw hkind c List.mem_cons_self] at hc
      cases hc
    | lineComment =>
      exact hopen.1 (opens_before_blank (List.cons_ne_nil c v) rfl hb
        (lineComment_opening _ hlonger))
    | blockComment =>
      exact hopen.2 (opens_before_blank (List.cons_ne_nil c v) rfl hb
        (blockComment_opening _ hlonger))
    | _ => cases hkind'

/-- A lexeme is cut off that nothing in what follows makes longer. -/
theorem first?_of_stops {sort : LexemeSort} (hsort : sort ∈ all) {w rest : List Char}
    (hw : w ∈ sort.language)
    (hstops : ∀ sort' ∈ all, ∀ b u, b :: u <+: rest → w ++ b :: u ∉ sort'.language) :
    Lexeme.first? (w ++ rest) = some ⟨sort.kind w, w, rest⟩ := by
  have hstart : w <+: w ++ rest := List.prefix_append w rest
  obtain ⟨l, hl⟩ := Option.isSome_iff_exists.mp (first?_isSome hsort hw hstart)
  obtain ⟨sort', hsort', hmem, hkind⟩ := exists_of_first? hl
  have happend := Lexeme.text_append_rest hl
  -- whichever sort gives the lexeme, its text is no shorter than `w`
  have hlongest : w.length ≤ l.text.length := by
    refine longest_of_pairwise all_pairwise ?_ sort hsort w hw hstart
    rw [map_cls_all]
    exact hl
  obtain ⟨u, hu⟩ : w <+: l.text :=
    List.prefix_of_prefix_length_le hstart ⟨l.rest, happend⟩ hlongest
  have htail : u ++ l.rest = rest := by
    rw [← hu, List.append_assoc] at happend
    exact List.append_cancel_left happend
  rw [← hu] at hmem
  cases u with
  | nil =>
    -- the text is `w`, and a text belongs to one sort only
    rw [List.append_nil] at hu hmem
    rw [← hu, eq_of_mem hsort' hsort hmem hw] at hkind
    rw [hl, ← hkind, ← htail, hu]
    rfl
  | cons b u => exact absurd hmem (hstops sort' hsort' b u ⟨l.rest, htail⟩)

/-- In front of a blank or of nothing, a text that makes a token makes it again. -/
theorem first?_again {sort : LexemeSort} (hsort : sort ∈ all) {w rest : List Char}
    (hw : w ∈ sort.language) {kind : TokenKind} (hkind : sort.kind w = some kind)
    (hrest : ∀ c, rest.head? = some c → isBlank c = true) :
    Lexeme.first? (w ++ rest) = some ⟨some kind, w, rest⟩ := by
  rw [← hkind]
  refine first?_of_stops hsort hw fun sort' hsort' b u hu => ?_
  obtain ⟨v, rfl⟩ := hu
  exact stops_at_blank hsort hsort' hw hkind (hrest b rfl)

/-- Blanks in front of something else are layout. -/
theorem first?_blanks {gap rest : List Char} (hgap : gap ≠ [])
    (hblank : ∀ c ∈ gap, isBlank c = true)
    (hrest : ∀ c, rest.head? = some c → isBlank c = false) :
    Lexeme.first? (gap ++ rest) = some ⟨none, gap, rest⟩ := by
  have hmem : gap ∈ blanks.language := Pattern.mem_one_mul_many.mpr ⟨hgap, hblank⟩
  refine first?_of_stops (by simp [all]) hmem fun sort' hsort' b u hu hlonger => ?_
  obtain ⟨v, rfl⟩ := hu
  obtain ⟨c, gap, rfl⟩ := List.exists_cons_of_ne_nil hgap
  -- only blanks start with a blank
  have hstart : sort'.start = .blank := by
    obtain ⟨d, w, hd, hstart⟩ := exists_head hsort' hlonger
    obtain ⟨rfl, _⟩ := List.cons.inj hd
    exact hstart.symm.trans (Start.of_isBlank (hblank c List.mem_cons_self))
  cases sort' with
  | blanks =>
    have hb : isBlank b = true := (Pattern.mem_one_mul_many.mp hlonger).2 b (by simp)
    rw [hrest b rfl] at hb
    cases hb
  | _ => cases hstart

end LexemeSort

/-! ## Tokens with blanks between them -/

/-- The text has the words, one after the other, and blanks between any two of them. -/
inductive Spaced : List String → String → Prop where
  | nil : Spaced [] ""
  | last (word : String) : Spaced [word] word
  | cons {word next gap text : String} {words : List String} : gap ≠ "" →
      gap.toList.all isBlank = true → Spaced (next :: words) text →
      Spaced (word :: next :: words) (word ++ gap ++ text)

theorem Spaced.starts {word text : String} {words : List String}
    (h : Spaced (word :: words) text) : word.toList <+: text.toList := by
  cases h with
  | last => exact List.prefix_rfl
  | cons =>
    rw [String.toList_append, String.toList_append, List.append_assoc]
    exact List.prefix_append _ _

namespace Token

/-- The token has the text of a lexeme, and is what such a lexeme makes. -/
def Lexes (t : Token) : Prop :=
  ∃ sort ∈ LexemeSort.all, t.text.toList ∈ sort.language ∧ sort.kind t.text.toList = some t.kind

/-- All tokens of a source but the last are made by lexemes, and the last one ends the input. -/
theorem lexes_of_tokenize {source file : String} {tokens : List Token}
    (h : tokenize source file = .ok tokens) :
    ∃ before position, tokens = before ++ [endOfInput position] ∧ ∀ t ∈ before, t.Lexes := by
  have hlexes : ∀ text l offset t, Lexeme.first? text = some l →
      ofLexeme? file offset l = some t → t.Lexes := by
    intro text l offset t hfirst ht
    obtain ⟨kind, hkind, rfl⟩ := Option.map_eq_some_iff.mp ht
    obtain ⟨sort, hsort, hmem, hk⟩ := LexemeSort.exists_of_first? hfirst
    unfold Lexes
    rw [String.toList_ofList]
    exact ⟨sort, hsort, hmem, hk.symm.trans hkind⟩
  exact scan_lexemes hlexes 0 source.toList tokens h

theorem Lexes.exists_head {t : Token} (h : t.Lexes) :
    ∃ c v, t.text.toList = c :: v ∧ isBlank c = false := by
  obtain ⟨sort, hsort, hw, hkind⟩ := h
  obtain ⟨c, v, hcons, _⟩ := LexemeSort.exists_head hsort hw
  refine ⟨c, v, hcons, LexemeSort.notBlank hsort hw hkind c ?_⟩
  rw [hcons]
  exact List.mem_cons_self

/-- A lexeme is cut off in front, and what it makes is a token or nothing. -/
theorem scan_append {file : String} {offset : Nat} {w rest : List Char} {kind : Option TokenKind}
    (hw : w ≠ []) (h : Lexeme.first? (w ++ rest) = some ⟨kind, w, rest⟩) :
    scan file offset (w ++ rest) =
      (scan file (offset + width w) rest).map
        ((ofLexeme? file offset ⟨kind, w, rest⟩).toList ++ ·) := by
  obtain ⟨c, v, rfl⟩ := List.exists_cons_of_ne_nil hw
  exact scan_cons h

/-- Blanks in front of something else are skipped. -/
theorem scan_blanks {file : String} {offset : Nat} {gap rest : List Char} (hgap : gap ≠ [])
    (hblank : ∀ c ∈ gap, isBlank c = true)
    (hrest : ∀ c, rest.head? = some c → isBlank c = false) :
    scan file offset (gap ++ rest) = scan file (offset + width gap) rest := by
  rw [scan_append hgap (LexemeSort.first?_blanks hgap hblank hrest)]
  cases scan file (offset + width gap) rest <;> rfl

/-- A token in front of blanks or of nothing is scanned again, and then what follows it. -/
theorem Lexes.scan_append {t : Token} (h : t.Lexes) (file : String) (offset : Nat)
    {rest : List Char} (hrest : ∀ c, rest.head? = some c → isBlank c = true) :
    ∃ t', t.Alike t' ∧ scan file offset (t.text.toList ++ rest) =
      (scan file (offset + width t.text.toList) rest).map (t' :: ·) := by
  obtain ⟨c, v, hcons, _⟩ := h.exists_head
  obtain ⟨sort, hsort, hw, hkind⟩ := h
  have hne : t.text.toList ≠ [] := by rw [hcons]; exact List.cons_ne_nil c v
  refine ⟨⟨t.kind, String.ofList t.text.toList, Span.ofBytes file offset (width t.text.toList)⟩,
    ⟨rfl, String.ofList_toList⟩, ?_⟩
  rw [Token.scan_append hne (LexemeSort.first?_again hsort hw hkind hrest)]
  rfl

/-- Blanks in front of a token are skipped. -/
theorem Lexes.scan_blanks {t : Token} (h : t.Lexes) (file : String) (offset : Nat)
    {gap rest : List Char} (hgap : gap ≠ []) (hblank : ∀ c ∈ gap, isBlank c = true)
    (hrest : t.text.toList <+: rest) :
    scan file offset (gap ++ rest) = scan file (offset + width gap) rest := by
  obtain ⟨c, v, hcons, hc⟩ := h.exists_head
  obtain ⟨u, rfl⟩ := hrest
  refine Token.scan_blanks hgap hblank fun d hd => ?_
  rw [hcons] at hd
  obtain rfl := Option.some.inj hd
  exact hc

/-- Words with blanks between them are scanned one by one. -/
theorem scan_spaced {file text : String} {words : List String} (h : Spaced words text) :
    ∀ {before : List Token}, before.map Token.text = words → (∀ t ∈ before, t.Lexes) →
      ∀ offset, ∃ tokens position,
        scan file offset text.toList = .ok (tokens ++ [endOfInput position]) ∧
        List.Forall₂ Alike before tokens := by
  induction h with
  | nil =>
    intro before hwords _ offset
    obtain rfl := List.map_eq_nil_iff.mp hwords
    refine ⟨[], Position.ofBytes file offset, ?_, .nil⟩
    rw [String.toList_empty, scan]
    rfl
  | last word =>
    intro before hwords hlexes offset
    obtain ⟨t, rfl, rfl⟩ := List.map_eq_singleton_iff.mp hwords
    have hnone : ∀ c, ([] : List Char).head? = some c → isBlank c = true := by
      intro c hc
      cases hc
    obtain ⟨t', halike, hscan⟩ := (hlexes t List.mem_cons_self).scan_append file offset hnone
    refine ⟨[t'], Position.ofBytes file (offset + width t.text.toList), ?_, .cons halike .nil⟩
    rw [List.append_nil] at hscan
    rw [hscan, scan]
    rfl
  | @cons word next gap text words hgap hblank hspaced ih =>
    intro before hwords hlexes offset
    obtain ⟨t, later, rfl, rfl, hlater⟩ := List.map_eq_cons_iff.mp hwords
    obtain ⟨ht, hlexes⟩ := List.forall_mem_cons.mp hlexes
    have hblank : ∀ c ∈ gap.toList, isBlank c = true := List.all_eq_true.mp hblank
    have hgap : gap.toList ≠ [] := fun hnil => hgap (String.toList_eq_nil_iff.mp hnil)
    -- the word is followed by the gap, which starts with a blank
    have hstart : ∀ c, (gap.toList ++ text.toList).head? = some c → isBlank c = true := by
      intro c hc
      rw [List.head?_append_of_ne_nil _ hgap] at hc
      exact hblank c (List.mem_of_mem_head? hc)
    obtain ⟨t', halike, hscan⟩ := ht.scan_append file offset hstart
    obtain ⟨tokens, position, hrest, hall⟩ :=
      ih hlater hlexes (offset + width t.text.toList + width gap.toList)
    refine ⟨t' :: tokens, position, ?_, .cons halike hall⟩
    obtain ⟨u, others, rfl, rfl, _⟩ := List.map_eq_cons_iff.mp hlater
    -- the gap itself gives no token
    have hskip := (hlexes u List.mem_cons_self).scan_blanks file
      (offset + width t.text.toList) hgap hblank hspaced.starts
    rw [String.toList_append, String.toList_append, List.append_assoc, hscan, hskip, hrest]
    rfl

/-- What the tokens of a source say does not hang on the layout: their texts, put one after
the other with any blanks between them, are scanned into tokens of the same kinds and
texts. -/
theorem tokenize_spaced {source file text : String} {tokens : List Token}
    (h : tokenize source file = .ok tokens)
    (hspaced : Spaced (tokens.dropLast.map Token.text) text) (file' : String) :
    ∃ tokens' stop stop', tokens = tokens.dropLast ++ [endOfInput stop] ∧
      tokenize text file' = .ok (tokens' ++ [endOfInput stop']) ∧
      List.Forall₂ Alike tokens.dropLast tokens' := by
  obtain ⟨before, stop, rfl, hlexes⟩ := lexes_of_tokenize h
  rw [List.dropLast_concat] at hspaced ⊢
  obtain ⟨tokens', stop', hscan, halike⟩ := scan_spaced hspaced rfl hlexes 0
  exact ⟨tokens', stop, stop', rfl, hscan, halike⟩

theorem tokenize_spaced_tight :
    ∃ tokens tokens' stop',
      tokenize "1.5e0x0/ *<=// =\nif" "a.cact" = .ok tokens ∧
      Spaced (tokens.dropLast.map Token.text) "1.5e0\nx0\t/ *\u00a0 <= if" ∧
      tokenize "1.5e0\nx0\t/ *\u00a0 <= if" "b.cact" = .ok (tokens' ++ [endOfInput stop']) ∧
      List.Forall₂ Alike tokens.dropLast tokens' := by
  have hwords : (tokenize "1.5e0x0/ *<=// =\nif" "a.cact").toOption.map
      (fun tokens => tokens.dropLast.map Token.text) =
        some ["1.5e0", "x0", "/", "*", "<=", "if"] := by
    decide +kernel
  have hspaced : Spaced ["1.5e0", "x0", "/", "*", "<=", "if"]
      ("1.5e0" ++ "\n" ++ ("x0" ++ "\t" ++ ("/" ++ " " ++ ("*" ++ "\u00a0 " ++
        ("<=" ++ " " ++ "if"))))) := by
    repeat' first | exact .last _ | refine .cons (by decide) (by decide) ?_
  cases hscan : tokenize "1.5e0x0/ *<=// =\nif" "a.cact" with
  | error e => rw [hscan] at hwords; cases hwords
  | ok tokens =>
    rw [hscan] at hwords
    rw [← Option.some.inj hwords] at hspaced
    obtain ⟨tokens', _, stop', _, hscan', halike⟩ := tokenize_spaced hscan hspaced "b.cact"
    exact ⟨tokens, tokens', stop', rfl, hspaced, hscan', halike⟩

end Token

end CactLang
