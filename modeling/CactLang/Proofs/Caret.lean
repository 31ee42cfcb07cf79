import CactLang.Diagnostic.Report
import CactLang.Proofs.LineLookup
import CactLang.Proofs.Pointing
import CactLang.Proofs.Rescanning

/-!
# Where the caret stands

A report shows a line and, below it, a caret that points at a place of the line. The place is
known as an offset in bytes, and the line starts behind a line number and without its
indentation. What is printed is a row of characters.

> `Spot`: a character of a source, with what stands on both sides of it. It says where the
> character is to be found in the printed line, in characters and without any offset.

What the phases report is about a place (`Diagnostic.ReportedAt`): a character that is printed,
or the end of the source (`Token.starts_spot`). A place is exact, while the offset of a position
has its lower 32 bits only. The caret is moved right by a column for every byte in front of the
place, so it stands under the character exactly if all that is printed in front of it is ASCII.
-/

namespace CactLang

open Text (width bytes newline isBlank trimEnd)
open Diagnostic (isIndent gutter caret? indent shownColumn excerpt widestField)

/-! ## Characters of a source -/

/-- A character of a source, with what stands before and after it. -/
structure Spot (source : List Char) where
  before : List Char
  char : Char
  after : List Char
  source_eq : source = before ++ char :: after

namespace Spot

variable {source : List Char} (x : Spot source)

/-- The number of bytes before the character. -/
def offset : Nat :=
  width x.before

/-- The number of its line. -/
def number : Nat :=
  x.before.count '\n' + 1

/-- What stands before the character in its line. -/
def row : List Char :=
  x.before.rtakeWhile (· ≠ '\n')

/-- Its line, without the newline. -/
def line : List Char :=
  x.row ++ (x.char :: x.after).takeWhile (· ≠ '\n')

/-- What stands before the character in its line, without the indentation. -/
def lead : List Char :=
  x.row.dropWhile isIndent

/-- The line as it is printed: behind its number, without indentation and blanks at the end. -/
def textLine : String :=
  toString x.number ++ " | " ++ String.ofList (trimEnd (x.line.dropWhile isIndent))

/-- The column of the character in the printed line. -/
def column : Nat :=
  (toString x.number).length + 3 + x.lead.length

/-- The line of the caret, with a dash for every byte that stands before the character. -/
def caretLine : String :=
  gutter (toString x.number).length ++ " " ++
    String.ofList (List.replicate (width x.lead) '-' ++ ['^'])

theorem offset_lt : x.offset < width source := by
  have hwidth := congrArg width x.source_eq
  have hpos := x.char.utf8Size_pos
  rw [Text.width_append, Text.width_cons] at hwidth
  rw [hwidth, offset]
  omega

end Spot

/-! ## Texts -/

theorem dropWhile_append_cons {α : Type} {p : α → Bool} {y : α} (hy : p y = false)
    (xs ys : List α) : (xs ++ y :: ys).dropWhile p = xs.dropWhile p ++ y :: ys := by
  rw [List.dropWhile_append]
  split
  next hnil =>
    rw [List.isEmpty_iff.mp hnil, List.dropWhile_cons_of_neg (by simp [hy])]
    rfl
  next => rfl

theorem takeWhile_append_cons {α : Type} {p : α → Bool} {y : α} (hy : p y = false)
    (xs ys : List α) : (xs ++ y :: ys).takeWhile p = xs.takeWhile p := by
  suffices (xs ++ y :: ys).takeWhile p ++ (xs.dropWhile p ++ y :: ys) =
      xs.takeWhile p ++ (xs.dropWhile p ++ y :: ys) from List.append_cancel_right this
  rw [← dropWhile_append_cons hy, List.takeWhile_append_dropWhile, dropWhile_append_cons hy,
    ← List.append_assoc, List.takeWhile_append_dropWhile]

theorem getElem?_concat_iff {α : Type} {xs : List α} {y : α} (hy : y ∉ xs) {i : Nat} :
    (xs ++ [y])[i]? = some y ↔ i = xs.length := by
  constructor
  · intro h
    rcases Nat.lt_or_ge i xs.length with hlt | hge
    · rw [List.getElem?_append_left hlt] at h
      exact absurd (List.mem_of_getElem? h) hy
    · have hlast := (List.getElem?_eq_some_iff.mp h).1
      rw [List.length_append, List.length_singleton] at hlast
      omega
  · rintro rfl
    exact List.getElem?_concat_length

namespace Text

/-- A character that is not blank stays, with all that stands before it. -/
theorem trimEnd_append_cons {c : Char} (hc : isBlank c = false) (a b : List Char) :
    trimEnd (a ++ c :: b) = a ++ c :: trimEnd b := by
  unfold trimEnd
  rw [List.reverse_append, List.reverse_cons, List.append_assoc, List.singleton_append,
    dropWhile_append_cons hc]
  simp

theorem trimEnd_append_blanks {b : List Char} (hb : ∀ c ∈ b, isBlank c = true) (a : List Char) :
    trimEnd (a ++ b) = trimEnd a := by
  unfold trimEnd
  rw [List.reverse_append, List.dropWhile_append_of_pos]
  intro c hc
  exact hb c (List.mem_reverse.mp hc)

theorem count_bytes (text : List Char) : (bytes text).count newline = text.count '\n' := by
  induction text using Line.line_induction with
  | last text h =>
    rw [List.count_eq_zero_of_not_mem (newline_notMem h), List.count_eq_zero_of_not_mem h]
  | line body rest h ih =>
    rw [bytes_line, List.count_append, List.count_append, List.count_cons_self,
      List.count_cons_self, ih, List.count_eq_zero_of_not_mem (newline_notMem h),
      List.count_eq_zero_of_not_mem h]

/-- The bytes up to the end of a line are those of the characters up to there. -/
theorem through_bytes (text : List Char) :
    Line.through (bytes text) =
      bytes (text.takeWhile (· ≠ '\n') ++ (text.dropWhile (· ≠ '\n')).take 1) := by
  induction text using Line.line_induction with
  | last text h =>
    have hall : ∀ c ∈ text, decide (c ≠ '\n') = true := fun c hc =>
      decide_eq_true fun heq => h (heq ▸ hc)
    rw [Line.through_of_notMem (newline_notMem h), List.takeWhile_eq_self_iff.mpr hall,
      List.dropWhile_eq_nil_iff.mpr hall, List.take_nil, List.append_nil]
  | line body rest h _ =>
    have hall : ∀ c ∈ body, decide (c ≠ '\n') = true := fun c hc =>
      decide_eq_true fun heq => h (heq ▸ hc)
    rw [bytes_line, Line.through_append (newline_notMem h), List.takeWhile_append_of_pos hall,
      List.dropWhile_append_of_pos hall, List.takeWhile_cons_of_neg (by simp),
      List.dropWhile_cons_of_neg (by simp), List.append_nil]
    exact (bytes_line body []).symm

/-- A text has as many bytes as characters exactly if it is ASCII. -/
theorem width_eq_length_iff (text : List Char) :
    width text = text.length ↔ ∀ c ∈ text, c.toNat < 128 := by
  have hle : ∀ text : List Char, text.length ≤ width text := by
    intro text
    -- every character has one byte at least, so the two agree only if each has exactly one
    induction text with
    | nil => exact Nat.le_refl 0
    | cons c text ih =>
      have hpos := c.utf8Size_pos
      rw [width_cons, List.length_cons]
      omega
  have hone : ∀ c : Char, c.utf8Size = 1 ↔ c.toNat < 128 := by
    intro c
    rw [Char.utf8Size_eq_one_iff, UInt32.le_iff_toNat_le]
    exact Nat.lt_succ_iff.symm
  induction text with
  | nil => exact iff_of_true rfl (List.forall_mem_nil _)
  | cons c text ih =>
    have hpos := c.utf8Size_pos
    have hrest := hle text
    rw [List.forall_mem_cons, ← hone, width_cons, List.length_cons]
    refine Iff.trans ?_ (and_congr_right fun _ => ih)
    omega

end Text

/-! ## The line of a character -/

namespace Spot

variable {source : List Char} (x : Spot source)

/-- The line that is found is that of the character. -/
theorem find?_offset :
    Line.find? source x.offset = some ⟨x.number,
      x.row ++ ((x.char :: x.after).takeWhile (· ≠ '\n') ++
        ((x.char :: x.after).dropWhile (· ≠ '\n')).take 1), width x.row⟩ := by
  obtain ⟨⟨number, text, column⟩, hline, hnumber, haround⟩ := Line.find?_inside x.offset_lt
  have hbytes : bytes source = bytes x.before ++ bytes (x.char :: x.after) := by
    rw [← Text.bytes_append, ← x.source_eq]
  have hlength : x.offset = (bytes x.before).length := (Text.length_bytes x.before).symm
  have htake : (bytes source).take x.offset = bytes x.before := by
    rw [hbytes, hlength, List.take_left]
  have hdrop : (bytes source).drop x.offset = bytes (x.char :: x.after) := by
    rw [hbytes, hlength, List.drop_left]
  have hrow : Line.since (bytes x.before) = bytes x.row := (Line.bytes_lastSegment x.before).symm
  -- bytes determine the text, so what is found by bytes is known in characters
  rw [htake, Text.count_bytes] at hnumber
  obtain ⟨htext, hcolumn⟩ := haround
  rw [htake, hdrop, hrow, Text.through_bytes, ← Text.bytes_append] at htext
  rw [htake, hrow, Text.length_bytes] at hcolumn
  obtain rfl : number = x.number := hnumber.trans (Nat.add_comm 1 _)
  obtain rfl := Text.bytes_inj htext
  obtain rfl : column = width x.row := hcolumn
  exact hline

variable (hchar : isBlank x.char = false)

include hchar

theorem isIndent_char : isIndent x.char = false := by
  cases h : isIndent x.char with
  | false => rfl
  | true =>
    rw [isIndent, Bool.or_eq_true, decide_eq_true_iff, decide_eq_true_iff] at h
    rcases h with h | h <;>
    · rw [h] at hchar
      cases hchar

theorem char_ne_newline : x.char ≠ '\n' := by
  intro h
  rw [h] at hchar
  cases hchar

theorem takeWhile_char :
    (x.char :: x.after).takeWhile (· ≠ '\n') = x.char :: x.after.takeWhile (· ≠ '\n') :=
  List.takeWhile_cons_of_pos (decide_eq_true (x.char_ne_newline hchar))

/-- What stands behind the number in the printed line. -/
theorem shown_eq :
    trimEnd (x.line.dropWhile isIndent) =
      x.lead ++ x.char :: trimEnd (x.after.takeWhile (· ≠ '\n')) := by
  rw [line, x.takeWhile_char hchar, dropWhile_append_cons (x.isIndent_char hchar),
    Text.trimEnd_append_cons hchar]
  rfl

/-- The character stands in its column. -/
theorem getElem?_textLine : x.textLine.toList[x.column]? = some x.char := by
  have hlength : x.column = ((toString x.number ++ " | ").toList ++ x.lead).length := by
    rw [List.length_append, String.length_toList, String.length_append]
    rfl
  rw [textLine, String.toList_append, String.toList_ofList, x.shown_eq hchar, ← List.append_assoc,
    hlength, List.getElem?_append_right (Nat.le_refl _), Nat.sub_self]
  rfl

omit hchar in
theorem takeWhile_append_lead : x.row.takeWhile isIndent ++ x.lead = x.row :=
  List.takeWhile_append_dropWhile

omit hchar in
/-- The indentation has a byte for each of its characters. -/
theorem width_row : width x.row = (x.row.takeWhile isIndent).length + width x.lead := by
  have hascii : width (x.row.takeWhile isIndent) = (x.row.takeWhile isIndent).length := by
    refine (Text.width_eq_length_iff _).mpr fun c hc => ?_
    have hblank : c = ' ' ∨ c = '\t' := by
      simpa [isIndent] using List.mem_takeWhile_imp hc
    rcases hblank with rfl | rfl <;> decide
  rw [← hascii, ← Text.width_append, takeWhile_append_lead]

/-- The excerpt is the printed line and, unless its field is too wide, the caret. -/
theorem excerpt_eq {rest gap : List Char} (hrest : rest = x.after.takeWhile (· ≠ '\n') ++ gap)
    (hgap : ∀ c ∈ gap, isBlank c = true) :
    excerpt ⟨x.number, x.row ++ x.char :: rest, width x.row⟩ =
      [gutter (toString x.number).length, x.textLine] ++
        if width x.lead < widestField then [x.caretLine] else [] := by
  have hindent : indent ⟨x.number, x.row ++ x.char :: rest, width x.row⟩ =
      (x.row.takeWhile isIndent).length := by
    rw [indent, takeWhile_append_cons (x.isIndent_char hchar)]
  have hcolumn : shownColumn ⟨x.number, x.row ++ x.char :: rest, width x.row⟩ = width x.lead := by
    rw [shownColumn, hindent]
    exact Nat.sub_eq_of_eq_add (x.width_row.trans (Nat.add_comm _ _))
  have htext : x.row ++ x.char :: rest =
      x.row.takeWhile isIndent ++ (x.lead ++ x.char :: rest) := by
    rw [← List.append_assoc, takeWhile_append_lead]
  -- blanks at the end are not shown, so the gap after the line does not matter
  have hshown : trimEnd (x.lead ++ x.char :: rest) = trimEnd (x.line.dropWhile isIndent) := by
    rw [x.shown_eq hchar, Text.trimEnd_append_cons hchar, hrest,
      Text.trimEnd_append_blanks hgap]
  unfold excerpt
  rw [hcolumn, hindent]
  show [_, _ ++ String.ofList (trimEnd ((x.row ++ x.char :: rest).drop _))] ++ _ = _
  rw [htext, List.drop_left, hshown]
  congr 1
  -- the two cases differ in whether there is room for the caret
  unfold caret?
  split
  next hfits =>
    rw [if_pos (show width x.lead < widestField from hfits)]
    rfl
  next hwide =>
    rw [if_neg (show ¬width x.lead < widestField from hwide)]
    rfl

/-- What a report on the character has to say. -/
theorem reportLines_eq {d : Diagnostic} (hd : d.position.offset = x.offset) (file : String) :
    d.reportLines file source =
      [d.heading, "-> " ++ file, gutter (toString x.number).length, x.textLine] ++
        if width x.lead < widestField then [x.caretLine] else [] := by
  -- what ends the line is trimmed away with the blanks before it
  have hgap : ∀ c ∈ (x.after.dropWhile (· ≠ '\n')).take 1, isBlank c = true := by
    intro c hc
    cases hafter : x.after.dropWhile (· ≠ '\n') with
    | nil =>
      rw [hafter] at hc
      cases hc
    | cons e rest =>
      have hhead := List.head?_dropWhile_not (· ≠ '\n') x.after
      rw [hafter] at hc hhead
      obtain rfl := List.mem_singleton.mp hc
      obtain rfl : c = '\n' := by simpa using hhead
      rfl
  have hdrop : (x.char :: x.after).dropWhile (· ≠ '\n') = x.after.dropWhile (· ≠ '\n') :=
    List.dropWhile_cons_of_pos (decide_eq_true (x.char_ne_newline hchar))
  unfold Diagnostic.reportLines
  rw [hd, x.find?_offset, x.takeWhile_char hchar, hdrop]
  exact congrArg (d.heading :: ("-> " ++ file) :: ·) (x.excerpt_eq hchar rfl hgap)

end Spot

/-- The caret is found in one column only. -/
theorem Spot.getElem?_caretLine {source : List Char} (x : Spot source) (column : Nat) :
    x.caretLine.toList[column]? = some '^' ↔
      column = (toString x.number).length + 3 + width x.lead := by
  have hlist : x.caretLine.toList =
      List.replicate ((toString x.number).length + 1) ' ' ++ ['|', ' '] ++
        List.replicate (width x.lead) '-' ++ ['^'] := by
    simp [caretLine, gutter]
  have hlength : (List.replicate ((toString x.number).length + 1) ' ' ++ ['|', ' '] ++
      List.replicate (width x.lead) '-').length =
        (toString x.number).length + 3 + width x.lead := by
    simp only [List.length_append, List.length_replicate, List.length_cons, List.length_nil]
  rw [hlist, getElem?_concat_iff (by simp), hlength]

/-! ## What is reported -/

theorem Lexeme.length_rest_of_first? {text : List Char} {l : Lexeme}
    (h : first? text = some l) : l.rest.length < text.length := by
  cases text with
  | nil =>
    rw [first?_nil] at h
    cases h
  | cons c text => exact length_rest_lt h

/-- One of the phases reports the diagnostic on a source. -/
inductive Diagnostic.ReportedOn (source : String) (d : Diagnostic) : Prop where
  | scanning {file : String} (h : tokenize source file = .error d)
  | reading {file file' : String} {tokens : List Token} {c : Cursor}
      (hscan : tokenize source file = .ok tokens) (h : parse tokens file' = .error d c)
  | checking {file file' : String} {tokens : List Token} {p : Program} {c : Cursor}
      {withBuiltins : Bool} {r : Registry} (hscan : tokenize source file = .ok tokens)
      (hparse : parse tokens file' = .ok p c)
      (h : Typing.typeCheck withBuiltins p = (.error (.diagnostic d), r))

namespace Token

/-- Where the tokens of a text start that stands `offset` bytes after the start of a source, and
last where scanning stops. Unlike the offset of a position, a place is not cut to 32 bits. -/
def starts (offset : Nat) (text : List Char) : List Nat :=
  if h : (Lexeme.first? text).isSome = true then
    let l := (Lexeme.first? text).get h
    (if l.kind.isSome = true then [offset] else []) ++ starts (offset + width l.text) l.rest
  else [offset]
termination_by text.length
decreasing_by exact Lexeme.length_rest_of_first? (Option.some_get h).symm

theorem starts_of_none {offset : Nat} {text : List Char} (h : Lexeme.first? text = none) :
    starts offset text = [offset] := by
  rw [starts, dif_neg (by rw [h]; exact Bool.false_ne_true)]

theorem starts_of_some {offset : Nat} {text : List Char} {l : Lexeme}
    (h : Lexeme.first? text = some l) :
    starts offset text =
      (if l.kind.isSome = true then [offset] else []) ++
        starts (offset + width l.text) l.rest := by
  have hsome : (Lexeme.first? text).isSome = true := by
    rw [h]
    rfl
  have hget : (Lexeme.first? text).get hsome = l := Option.get_of_eq_some hsome h
  rw [starts, dif_pos hsome, hget]

theorem starts_ne_nil (offset : Nat) (text : List Char) : starts offset text ≠ [] := by
  induction offset, text using starts.induct with
  | case1 offset text h l ih =>
    rw [starts_of_some (Option.some_get h).symm]
    exact List.append_ne_nil_of_right_ne_nil _ ih
  | case2 offset text h =>
    rw [starts, dif_neg h]
    exact List.cons_ne_nil _ _

/-- Tokens have their positions at the starts. -/
theorem scan_ok_starts {file : String} (offset : Nat) (text : List Char) :
    ∀ tokens, scan file offset text = .ok tokens →
      tokens.map (·.span.start) = (starts offset text).map (Position.ofBytes file) := by
  induction offset, text using scan.induct with
  | case1 offset =>
    intro tokens h
    rw [scan] at h
    obtain rfl := Except.ok.inj h
    rw [starts_of_none Lexeme.first?_nil]
    rfl
  | case2 offset c text hnone =>
    intro tokens h
    rw [scan_of_none hnone] at h
    cases h
  | case3 offset c text l hfirst bytes ih =>
    intro tokens h
    rw [scan_cons hfirst] at h
    cases hrest : scan file (offset + width l.text) l.rest with
    | error e =>
      rw [hrest] at h
      cases h
    | ok rest =>
      rw [hrest] at h
      obtain rfl := Except.ok.inj h
      -- blanks and comments give no token and have no start
      have hhead : (ofLexeme? file offset l).toList.map (·.span.start) =
          (if l.kind.isSome = true then [offset] else []).map (Position.ofBytes file) := by
        unfold ofLexeme?
        cases l.kind with
        | none => rfl
        | some kind => rfl
      rw [starts_of_some hfirst, List.map_append, List.map_append, hhead, ih rest hrest]

/-- What is not recognised has its position at the last of the starts. -/
theorem scan_error_starts {file : String} (offset : Nat) (text : List Char) :
    ∀ d, scan file offset text = .error d →
      ∃ place, (starts offset text).getLast? = some place ∧
        d.position = Position.ofBytes file place := by
  induction offset, text using scan.induct with
  | case1 offset =>
    intro d h
    rw [scan] at h
    cases h
  | case2 offset c text hnone =>
    intro d h
    rw [scan_of_none hnone] at h
    obtain rfl := Except.error.inj h
    rw [starts_of_none hnone]
    exact ⟨offset, rfl, rfl⟩
  | case3 offset c text l hfirst bytes ih =>
    intro d h
    rw [scan_cons hfirst] at h
    cases hrest : scan file (offset + width l.text) l.rest with
    | error e =>
      rw [hrest] at h
      obtain rfl := Except.error.inj h
      obtain ⟨place, hlast, hposition⟩ := ih e hrest
      -- the failing start is the last one, whatever stands before it
      refine ⟨place, ?_, hposition⟩
      rw [starts_of_some hfirst, List.getLast?_append_of_ne_nil _ (starts_ne_nil _ _)]
      exact hlast
    | ok rest =>
      rw [hrest] at h
      cases h

/-- Every start is the end of the source or a character that is not blank. -/
theorem starts_spot {source : List Char} (offset : Nat) (text : List Char) :
    ∀ before, source = before ++ text → width before = offset → ∀ place ∈ starts offset text,
      place = width source ∨ ∃ x : Spot source, x.offset = place ∧ isBlank x.char = false := by
  -- along the lexemes; `before` is what has been scanned
  induction offset, text using scan.induct with
  | case1 offset =>
    intro before hsource hwidth place hplace
    rw [starts_of_none Lexeme.first?_nil] at hplace
    rw [List.mem_singleton.mp hplace, hsource, List.append_nil, hwidth]
    exact .inl rfl
  | case2 offset c text hnone =>
    intro before hsource hwidth place hplace
    rw [starts_of_none hnone] at hplace
    obtain rfl := List.mem_singleton.mp hplace
    refine .inr ⟨⟨before, c, text, hsource⟩, hwidth, ?_⟩
    -- a blank would be layout
    refine eq_false_of_ne_true fun hblank => ?_
    have hmem : [c] ∈ LexemeSort.blanks.language := Pattern.mem_one_mul_many.mpr
      ⟨List.cons_ne_nil c [], List.forall_mem_singleton.mpr hblank⟩
    have hsome := LexemeSort.first?_isSome (by simp [LexemeSort.all]) hmem
      (List.prefix_append [c] text)
    rw [List.singleton_append, hnone] at hsome
    cases hsome
  | case3 offset c text l hfirst bytes ih =>
    intro before hsource hwidth place hplace
    have htext := Lexeme.text_append_rest hfirst
    rw [starts_of_some hfirst] at hplace
    rcases List.mem_append.mp hplace with hplace | hplace
    · cases hkind : l.kind with
      | none =>
        rw [hkind] at hplace
        exact absurd hplace List.not_mem_nil
      | some kind =>
        rw [hkind] at hplace
        obtain rfl := List.mem_singleton.mp hplace
        obtain ⟨sort, hsort, hmem, hsortKind⟩ := LexemeSort.exists_of_first? hfirst
        obtain ⟨e, v, hcons, _⟩ := LexemeSort.exists_head hsort hmem
        refine .inr ⟨⟨before, e, v ++ l.rest, ?_⟩, hwidth, ?_⟩
        · rw [hsource, ← htext, hcons, List.cons_append]
        · refine LexemeSort.notBlank hsort hmem (hsortKind.symm.trans hkind) e ?_
          rw [hcons]
          exact List.mem_cons_self
    · refine ih (before ++ l.text) ?_ ?_ place hplace
      · rw [hsource, List.append_assoc, htext]
      · rw [Text.width_append, hwidth]

end Token

/-- The diagnostic is about the place. It is where scanning stops, where the token starts at which
the parser stops, or where a token starts that belongs to the node which the type checker blames. -/
inductive Diagnostic.ReportedAt (source : String) (d : Diagnostic) (place : Nat) : Prop where
  | scanning {file : String} (h : tokenize source file = .error d)
      (hplace : (Token.starts 0 source.toList).getLast? = some place)
  | reading {file file' : String} {tokens : List Token} {c : Cursor}
      (hscan : tokenize source file = .ok tokens) (h : parse tokens file' = .error d c)
      (hplace : (Token.starts 0 source.toList)[tokens.length - c.tokens.length]? = some place)
  | checking {file file' : String} {tokens before us after : List Token} {p : Program} {c : Cursor}
      {withBuiltins : Bool} {r : Registry} {n : Node} {t : Token} {i : Nat}
      (hscan : tokenize source file = .ok tokens) (hparse : parse tokens file' = .ok p c)
      (h : Typing.typeCheck withBuiltins p = (.error (.diagnostic d), r)) (hn : n ∈ p.nodes)
      (htokens : tokens = before ++ us ++ after) (hcovers : (Piece.node n).Covers us)
      (ht : us[i]? = some t) (hpoints : d.PointsAt n t)
      (hplace : (Token.starts 0 source.toList)[before.length + i]? = some place)

/-- A token that is the `i`-th of a source starts at the `i`-th place. -/
theorem tokenize_getElem? {source file : String} {tokens : List Token} {t : Token} {i : Nat}
    (hscan : tokenize source file = .ok tokens) (ht : tokens[i]? = some t) :
    ∃ place, (Token.starts 0 source.toList)[i]? = some place ∧
      t.span.start = Position.ofBytes file place := by
  have hstarts := congrArg (·[i]?) (Token.scan_ok_starts 0 source.toList tokens hscan)
  simp only [List.getElem?_map, ht, Option.map_some] at hstarts
  obtain ⟨place, hplace, hposition⟩ := Option.map_eq_some_iff.mp hstarts.symm
  exact ⟨place, hplace, hposition.symm⟩

theorem getElem?_within {tokens before us after : List Token} {t : Token} {i : Nat}
    (htokens : tokens = before ++ us ++ after) (ht : us[i]? = some t) :
    tokens[before.length + i]? = some t := by
  have hlt : i < us.length := (List.getElem?_eq_some_iff.mp ht).1
  rw [htokens, List.append_assoc, List.getElem?_append_right (Nat.le_add_right _ _),
    Nat.add_sub_cancel_left, List.getElem?_append_left hlt]
  exact ht

/-- Where the parser stops, the diagnostic is at the token that is current. -/
theorem getElem?_of_parse_error {source file file' : String} {tokens : List Token}
    {d : Diagnostic} {c : Cursor} (hscan : tokenize source file = .ok tokens)
    (h : parse tokens file' = .error d c) :
    tokens[tokens.length - c.tokens.length]? = some c.current ∧
      d.position = c.current.span.start := by
  obtain ⟨before, last, rfl, hlast, _⟩ := tokenize_ok hscan
  obtain ⟨ts, htakes, hblames, _⟩ := parse_error h
  have htokens := htakes.tokens
  rw [Cursor.ofTokens_ended hlast] at htokens
  refine ⟨?_, hblames.position⟩
  rw [htokens, List.length_append, Nat.add_sub_cancel, List.getElem?_append_right (Nat.le_refl _),
    Nat.sub_self]
  rfl

/-- Whatever is reported is about a place. -/
theorem Diagnostic.ReportedOn.exists_place {source : String} {d : Diagnostic}
    (h : d.ReportedOn source) : ∃ place, d.ReportedAt source place := by
  cases h with
  | scanning h =>
    obtain ⟨place, hplace, _⟩ := Token.scan_error_starts 0 source.toList d h
    exact ⟨place, .scanning h hplace⟩
  | reading hscan h =>
    obtain ⟨place, hplace, _⟩ := tokenize_getElem? hscan (getElem?_of_parse_error hscan h).1
    exact ⟨place, .reading hscan h hplace⟩
  | checking hscan hparse h =>
    obtain ⟨n, hn, us, t, hus, hcovers, ht, hpoints⟩ := Typing.typeCheck_pointsAt hparse h
    obtain ⟨before, after, htokens⟩ := hus.trans (List.takeWhile_prefix _).isInfix
    obtain ⟨i, hi⟩ := List.getElem?_of_mem ht
    obtain ⟨place, hplace, _⟩ :=
      tokenize_getElem? hscan (getElem?_within htokens.symm hi)
    exact ⟨place, .checking hscan hparse h hn htokens.symm hcovers hi hpoints hplace⟩

namespace Diagnostic.ReportedAt

variable {source : String} {d : Diagnostic} {place : Nat}

/-- The place is one at which scanning starts a token or stops. -/
theorem mem_starts (h : d.ReportedAt source place) :
    place ∈ Token.starts 0 source.toList := by
  cases h with
  | scanning _ hplace => exact List.mem_of_getLast? hplace
  | reading _ _ hplace => exact List.mem_of_getElem? hplace
  | checking _ _ _ _ _ _ _ _ hplace => exact List.mem_of_getElem? hplace

/-- The diagnostic has the place for its position, as far as 32 bits hold it. -/
theorem offset_eq (h : d.ReportedAt source place) : d.position.offset = place % 2 ^ 32 := by
  have htoken : ∀ {file : String} {tokens : List Token} {i : Nat} {t : Token},
      tokenize source file = .ok tokens → tokens[i]? = some t →
      (Token.starts 0 source.toList)[i]? = some place → d.position = t.span.start →
      d.position.offset = place % 2 ^ 32 := by
    intro file tokens i t hscan ht hplace hposition
    obtain ⟨place', hplace', hstart⟩ := tokenize_getElem? hscan ht
    obtain rfl := Option.some.inj (hplace.symm.trans hplace')
    rw [hposition, hstart]
    rfl
  -- two of the ways to be reported name a token, and are the same argument
  cases h with
  | scanning h hplace =>
    obtain ⟨place', hplace', hposition⟩ := Token.scan_error_starts 0 source.toList d h
    obtain rfl := Option.some.inj (hplace.symm.trans hplace')
    rw [hposition]
    rfl
  | reading hscan h hplace =>
    obtain ⟨ht, hposition⟩ := getElem?_of_parse_error hscan h
    exact htoken hscan ht hplace hposition
  | checking hscan _ _ _ htokens _ hi hpoints hplace =>
    exact htoken hscan (getElem?_within htokens hi) hplace hpoints.token

end Diagnostic.ReportedAt

/-- **The caret stands under what follows ASCII.** Whatever is reported is about a place of the
source, and its offset is the lower 32 bits of that place. If the place is before the end and
fits into 32 bits, a character stands there that is not trimmed from the printed line. Below the
line stands one caret, a column further right for every byte that the characters before the
character take beyond their first. So it stands in the column of the character exactly if these
are all ASCII. A caret whose field is too wide is missing. -/
theorem caret_under_iff_ascii {source : String} {d : Diagnostic} (h : d.ReportedOn source)
    (file : String) :
    (∃ place, d.ReportedAt source place) ∧ ∀ place, d.ReportedAt source place →
      place ≤ source.utf8ByteSize ∧ d.position.offset = place % 2 ^ 32 ∧
      (place < source.utf8ByteSize → place < 2 ^ 32 → ∃ x : Spot source.toList, x.offset = place ∧
        x.textLine.toList[x.column]? = some x.char ∧
        (width x.lead < widestField → ∃ caretLine : String,
          d.report file source.toList = String.join
            ([d.heading, "-> " ++ file, gutter (toString x.number).length, x.textLine,
              caretLine].map (· ++ "\n")) ∧
          (∀ column, caretLine.toList[column]? = some '^' ↔
            column + x.lead.length = x.column + width x.lead) ∧
          (caretLine.toList[x.column]? = some '^' ↔ ∀ c ∈ x.lead, c.toNat < 128)) ∧
        (widestField ≤ width x.lead →
          d.report file source.toList = String.join
            ([d.heading, "-> " ++ file, gutter (toString x.number).length,
              x.textLine].map (· ++ "\n")))) := by
  rw [Text.utf8ByteSize_eq_width]
  refine ⟨h.exists_place, fun place hplace => ?_⟩
  -- the place is that of a character which can be shown, or the end of the source
  have hspot : place = width source.toList ∨
      ∃ x : Spot source.toList, x.offset = place ∧ isBlank x.char = false :=
    Token.starts_spot 0 source.toList [] rfl rfl place hplace.mem_starts
  have hle : place ≤ width source.toList := by
    rcases hspot with rfl | ⟨x, rfl, _⟩
    · exact Nat.le_refl _
    · exact Nat.le_of_lt x.offset_lt
  refine ⟨hle, hplace.offset_eq, fun hinside hsmall => ?_⟩
  have hoffset := hplace.offset_eq
  rw [Nat.mod_eq_of_lt hsmall] at hoffset
  rcases hspot with rfl | ⟨x, rfl, hchar⟩
  · exact absurd hinside (Nat.lt_irrefl _)
  have hlines := x.reportLines_eq hchar hoffset file
  -- the caret is put as many columns to the right as the lead has bytes
  have hcaret : ∀ column, x.caretLine.toList[column]? = some '^' ↔
      column + x.lead.length = x.column + width x.lead := by
    intro column
    rw [x.getElem?_caretLine, Spot.column]
    omega
  refine ⟨x, rfl, x.getElem?_textLine hchar, fun hfits => ⟨x.caretLine, ?_, hcaret, ?_⟩,
    fun hwide => ?_⟩
  · rw [Diagnostic.report, hlines, if_pos hfits]
    rfl
  · -- bytes and characters are as many exactly if every character is ASCII
    rw [hcaret, ← Text.width_eq_length_iff]
    omega
  · rw [Diagnostic.report, hlines, if_neg (Nat.not_lt.mpr hwide)]
    rfl

/-- An indented line with a character that starts no token:

```
int a;
	int b = @;
```
-/
def indentedSource : String :=
  "int a;\n\tint b = @;"

theorem caret_under_iff_ascii_indentedSource :
    ∃ d, tokenize indentedSource = .error d ∧
      ∃ (x : Spot indentedSource.toList) (caretLine : String), x.offset = 16 ∧
        d.report "main.cact" indentedSource.toList = String.join
          ([d.heading, "-> main.cact", gutter (toString x.number).length, x.textLine,
            caretLine].map (· ++ "\n")) ∧
        x.textLine.toList[x.column]? = some '@' ∧ caretLine.toList[x.column]? = some '^' := by
  have hscan : tokenize indentedSource = .error ⟨.unrecognised "@", ⟨16, "shell"⟩, none⟩ := by
    decide +kernel
  obtain ⟨⟨place, hat⟩, hall⟩ := caret_under_iff_ascii (.scanning hscan) "main.cact"
  obtain ⟨hle, hplace, hspot⟩ := hall place hat
  have hsize : indentedSource.utf8ByteSize = 18 := by decide +kernel
  obtain rfl : place = 16 := by
    rw [hsize] at hle
    change 16 = place % 2 ^ 32 at hplace
    omega
  obtain ⟨x, hoffset, hchar, hcaret, _⟩ := hspot (by rw [hsize]; decide) (by decide)
  -- a text is split at a byte in one way only
  have hsplit : x.before ++ x.char :: x.after = "int a;\n\tint b = ".toList ++ ['@', ';'] :=
    x.source_eq.symm
  have hafter := Text.split_unique hsplit (hoffset.trans (by decide +kernel))
  have hbefore : x.before = "int a;\n\tint b = ".toList := by
    rw [hafter] at hsplit
    exact List.append_cancel_right hsplit
  have hlead : x.lead = "int b = ".toList := by
    rw [Spot.lead, Spot.row, hbefore]
    decide +kernel
  obtain ⟨caretLine, hreport, _, hunder⟩ := hcaret (by rw [hlead]; decide +kernel)
  refine ⟨_, hscan, x, caretLine, hoffset, hreport, ?_, hunder.mpr ?_⟩
  · rw [hchar, (List.cons.inj hafter).1]
  · have hascii : "int b = ".toList.all (fun c => decide (c.toNat < 128)) = true := by
      decide +kernel
    rw [hlead]
    exact fun c hc => of_decide_eq_true (List.all_eq_true.mp hascii c hc)

/-- A comment that is not ASCII stands before the place. The character has a column less before
it than the caret. -/
theorem caret_beside_character :
    ∃ d, tokenize "/* é */ @" = .error d ∧
      d.reportLines "main.cact" "/* é */ @".toList =
        ["Error: UnrecognisedToken", "-> main.cact", "  |", "1 | /* é */ @", "  | ---------^"] ∧
      "1 | /* é */ @".toList.idxOf '@' = 12 ∧ "  | ---------^".toList.idxOf '^' = 13 :=
  ⟨⟨.unrecognised "@", ⟨9, "shell"⟩, none⟩, by decide +kernel, by decide +kernel, by decide +kernel,
    by decide +kernel⟩

end CactLang
