import CactLang.Diagnostic.Report
import CactLang.Proofs.Guarded.Scanning
import CactLang.Proofs.LineLookup
import Mathlib.Data.Nat.Digits.Defs

/-!
# Reports that count

A report finds the line of a place by adding up widths, cuts the line at a byte offset, and pads
two fields. Here it is written with every sum, difference, cut and field checked.

> `reportLines?_eq`: the check of a field refuses a report that breaks off, and nothing else is
> refused.

Lines are never empty, so there are no more of them than bytes; the number of a line has at most
twenty digits, and its field is never too wide.
-/

namespace CactLang

open Text (width width_append dropBytes? trimEnd)

/-! ## Lines -/

namespace Line

/-- The difference, if it is not negative. -/
def difference? (m n : Nat) : Option Nat :=
  if n ≤ m then some (m - n) else none

/-- The line among `lines` that holds the byte `offset`, or else the number of the line after
them. -/
def search? (offset : Nat) : List (List Char) → (number start : Nat) → Option (Except Nat Line)
  | [], number, _ => some (.error number)
  | line :: lines, number, start => do
    let stop ← sum64? start (width line)
    if start ≤ offset ∧ offset < stop then
      return .ok ⟨number, line, ← difference? offset start⟩
    else
      search? offset lines (← sum64? number 1) stop

/-- What follows the last newline, with the place at its end. -/
def last? (source : List Char) (number : Nat) : Option Line := do
  return ⟨← difference? (max number 2) 1, lastSegment source, width (lastSegment source)⟩

/-- The line of a byte offset, if the offset lies in the source. -/
def lineAt? (source : List Char) (offset : Nat) : Option (Option Line) :=
  if width source < offset then
    some none
  else do
    match ← search? offset (split source) 1 0 with
    | .ok line => return some line
    | .error number => return some (← last? source number)

theorem length_split_le (text : List Char) : (split text).length ≤ width text := by
  induction text with
  | nil => exact Nat.le_refl _
  | cons c text ih =>
    -- a line has one character at least, and so one byte
    have hc := c.utf8Size_pos
    rw [split, Text.width_cons]
    split
    next =>
      rw [List.length_cons]
      omega
    next =>
      cases hlines : split text with
      | nil =>
        show 1 ≤ _
        omega
      | cons line lines =>
        rw [hlines, List.length_cons] at ih
        show lines.length + 1 ≤ _
        omega

theorem search?_eq (offset : Nat) {lines : List (List Char)} {number start : Nat}
    (hstop : start + width lines.flatten < 2 ^ 64) (hnumber : number + lines.length < 2 ^ 64) :
    search? offset lines number start =
      some ((locate? offset number start lines).elim (.error (number + lines.length)) .ok) := by
  induction lines generalizing number start with
  | nil => rfl
  | cons line lines ih =>
    rw [List.flatten_cons, width_append] at hstop
    rw [List.length_cons] at hnumber
    rw [search?, sum64?_of_lt (by omega), locate?]
    dsimp only [Option.bind_eq_bind, Option.bind_some]
    split
    next hin =>
      rw [difference?, if_pos hin.1]
      rfl
    next =>
      rw [sum64?_of_lt (by omega), Option.bind_some, ih (by omega) (by omega), List.length_cons,
        Nat.add_assoc, Nat.add_comm 1]

theorem lineAt?_eq {source : List Char} (hsize : width source + 1 < 2 ^ 64) (offset : Nat) :
    lineAt? source offset = some (find? source offset) := by
  -- there are no more lines than bytes, so neither count leaves its word
  have hlines := length_split_le source
  have hstop : 0 + width (split source).flatten < 2 ^ 64 := by
    rw [flatten_split]
    omega
  have hnumber : 1 + (split source).length < 2 ^ 64 := by omega
  unfold lineAt? find?
  split
  next => rfl
  next =>
    rw [search?_eq offset hstop hnumber]
    dsimp only [Option.bind_eq_bind, Option.bind_some]
    cases locate? offset 1 0 (split source) with
    | some line => rfl
    | none =>
      have hlast : difference? (max (1 + (split source).length) 2) 1 =
          some (max ((split source).length + 1) 2 - 1) := by
        rw [Nat.add_comm 1, difference?, if_pos (by omega)]
      dsimp only [Option.elim_none]
      rw [last?, hlast]
      rfl

theorem locate?_bounds {offset number start : Nat} {lines : List (List Char)} {line : Line}
    (h : locate? offset number start lines = some line) :
    line.number < number + lines.length ∧ line.column ≤ offset := by
  induction lines generalizing number start with
  | nil => cases h
  | cons first lines ih =>
    rw [locate?] at h
    rw [List.length_cons]
    split at h
    next =>
      rw [← Option.some.inj h]
      dsimp only
      omega
    next =>
      have hih := ih h
      omega

theorem width_lastSegment_le (text : List Char) : width (lastSegment text) ≤ width text := by
  obtain ⟨front, hfront⟩ : ∃ front, text = front ++ lastSegment text := by
    refine ⟨(text.reverse.dropWhile (· ≠ '\n')).reverse, ?_⟩
    rw [lastSegment, ← List.reverse_append, List.takeWhile_append_dropWhile, List.reverse_reverse]
  have hwidth := congrArg width hfront
  rw [width_append] at hwidth
  omega

theorem find?_bounds {source : List Char} {offset : Nat} {line : Line}
    (h : find? source offset = some line) :
    line.number ≤ width source + 1 ∧ line.column ≤ width source := by
  have hlines := length_split_le source
  unfold find? at h
  split at h
  next => cases h
  next hoffset =>
    dsimp only at h
    cases hlocate : locate? offset 1 0 (split source) with
    | some found =>
      rw [hlocate] at h
      have hbounds := locate?_bounds hlocate
      rw [← Option.some.inj h]
      omega
    | none =>
      -- The place is the end of the source: the column is the width of what is last.
      rw [hlocate] at h
      have hlast := width_lastSegment_le source
      rw [← Option.some.inj h]
      dsimp only
      omega

end Line

/-! ## Excerpts -/

namespace Diagnostic

/-- A mark at the end of a field of `size` characters, unless the field is too wide. -/
def padded? (fill : Char) (size : Nat) (mark : Char) : Option String :=
  if size ≤ widestField then
    some (String.ofList (List.replicate (size - 1) fill ++ [mark]))
  else
    none

/-- The bar between line numbers and text, for numbers of `digits` digits. -/
def bar? (digits : Nat) : Option String := do
  padded? ' ' (← sum64? digits 2) '|'

/-- The caret after `column` dashes. -/
def mark? (column : Nat) : Option String := do
  padded? '-' (← sum64? column 1) '^'

/-- The three lines that show a place in its line. -/
def excerpt? (line : Line) : Option (List String) := do
  let number := toString line.number
  let bar ← bar? number.length
  let text ← dropBytes? line.text (indent line)
  let mark ← mark? (shownColumn line)
  return [bar, number ++ " | " ++ String.ofList (trimEnd text), bar ++ " " ++ mark]

/-- The lines of a report. -/
def reportLines? (d : Diagnostic) (file : String) (source : List Char) : Option (List String) := do
  match ← Line.lineAt? source d.position.offset with
  | none => return [d.heading, "-> " ++ file]
  | some line => return d.heading :: ("-> " ++ file) :: (← excerpt? line)

/-- The blanks in front of a line have a byte each. -/
theorem dropBytes?_indent (line : Line) :
    dropBytes? line.text (indent line) = some (line.text.drop (indent line)) := by
  -- a blank has one byte, so an indent has as many bytes as characters
  have hblanks : ∀ text : List Char, (∀ c ∈ text, isIndent c = true) →
      width text = text.length := by
    intro text htext
    induction text with
    | nil => rfl
    | cons c text ih =>
      rw [List.forall_mem_cons] at htext
      have hc : c.utf8Size = 1 := by
        have hblank : c = ' ' ∨ c = '\t' := by simpa [isIndent] using htext.1
        rcases hblank with rfl | rfl <;> rfl
      rw [Text.width_cons, hc, ih htext.2, List.length_cons, Nat.add_comm]
  have hwidth : width (line.text.takeWhile isIndent) = indent line :=
    hblanks _ (List.all_eq_true.mp List.all_takeWhile)
  have hcut := Text.dropBytes?_width (line.text.takeWhile isIndent) (line.text.dropWhile isIndent)
  have hdrop : line.text.drop (indent line) = line.text.dropWhile isIndent := by
    conv_lhs => rw [← List.takeWhile_append_dropWhile (p := isIndent) (l := line.text)]
    exact List.drop_left
  rwa [List.takeWhile_append_dropWhile, hwidth, ← hdrop] at hcut

theorem bar?_eq {number : Nat} (h : number < 10 ^ 20) :
    bar? (toString number).length = some (gutter (toString number).length) := by
  have hlength : (toString number).length ≤ 20 := Nat.repr_length number 20 (by decide) h
  have hfits : (toString number).length + 2 ≤ widestField := by
    unfold widestField
    omega
  rw [bar?, sum64?_of_lt (by omega)]
  exact if_pos hfits

theorem mark?_eq {column : Nat} (h : column + 1 < 2 ^ 64) : mark? column = caret? column := by
  rw [mark?, sum64?_of_lt h]
  rfl

theorem excerpt?_eq {line : Line} (hnumber : line.number < 10 ^ 20)
    (hcolumn : line.column + 1 < 2 ^ 64) :
    excerpt? line = if (caret? (shownColumn line)).isNone then none else some (excerpt line) := by
  have hshown : shownColumn line + 1 < 2 ^ 64 := by
    unfold shownColumn
    omega
  unfold excerpt? excerpt
  dsimp only
  rw [bar?_eq hnumber, dropBytes?_indent, mark?_eq hshown]
  cases caret? (shownColumn line) <;> rfl

/-! ## Reports -/

/-- **A report is refused exactly if it breaks off.** -/
theorem reportLines?_eq (d : Diagnostic) (file : String) {source : List Char}
    (hsize : width source + 1 < 2 ^ 64) :
    d.reportLines? file source =
      if d.breaksOff source then none else some (d.reportLines file source) := by
  unfold reportLines? breaksOff reportLines
  rw [Line.lineAt?_eq hsize]
  cases hfind : Line.find? source d.position.offset with
  | none => rfl
  | some line =>
    obtain ⟨hnumber, hcolumn⟩ := Line.find?_bounds hfind
    dsimp only [Option.bind_eq_bind, Option.bind_some, Option.map_some, Option.getD_some]
    rw [excerpt?_eq (by omega) (by omega)]
    split <;> rfl

theorem caret?_eq_none {column : Nat} : (caret? column).isNone = true ↔ widestField ≤ column := by
  unfold caret?
  split
  next hfits => exact iff_of_false Bool.false_ne_true (by omega)
  next hfits => exact iff_of_true rfl (by omega)

theorem breaksOff_iff {d : Diagnostic} {source : List Char} :
    d.breaksOff source = true ↔
      ∃ line, Line.find? source d.position.offset = some line ∧ widestField ≤ shownColumn line := by
  unfold breaksOff
  cases hfind : Line.find? source d.position.offset with
  | none =>
    refine iff_of_false Bool.false_ne_true ?_
    rintro ⟨line, hline, _⟩
    cases hline
  | some line =>
    refine caret?_eq_none.trans ⟨fun hwide => ⟨line, rfl, hwide⟩, ?_⟩
    rintro ⟨found, hfound, hwide⟩
    rwa [Option.some.inj hfound]

end Diagnostic

end CactLang
