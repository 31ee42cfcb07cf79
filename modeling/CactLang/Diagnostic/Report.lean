import CactLang.Diagnostic
import CactLang.Source.Line
import CactLang.Text.Blank

/-!
# Reports

A report shows a diagnostic to a person: its name and tip, the file, and the
offending line with a caret under the place.

    Error: TypeMismatch (Expected type `int32`, received `float`)
    -> main.cact
       |
    20 | int32 a = 1.0f;
       | ----------^

Blanks before and after the line's text are left out, and the caret moves left
with it. A place outside the source shows no line. The caret is the end of a
field padded with dashes, and a field has its widest; a report whose caret lies
further right breaks off before the line of the caret.
-/

namespace CactLang.Diagnostic

open Text (trimEnd)

/-- Spaces and tabs, the blanks a line may start with. -/
def isIndent (c : Char) : Bool :=
  c = ' ' || c = '\t'

/-- The bar between line numbers and text, for numbers of `digits` digits. -/
def gutter (digits : Nat) : String :=
  String.ofList (List.replicate (digits + 1) ' ' ++ ['|'])

/-- The most characters that a field can be padded to. -/
def widestField : Nat :=
  65535

/-- The caret, as many dashes from the left as the place has columns before it,
unless the field of both is too wide. -/
def caret? (column : Nat) : Option String :=
  if column + 1 ≤ widestField then
    some (String.ofList (List.replicate column '-' ++ ['^']))
  else
    none

/-- The number of blanks that a line starts with. -/
def indent (line : Line) : Nat :=
  (line.text.takeWhile isIndent).length

/-- The columns before the place, in the line without its blanks. -/
def shownColumn (line : Line) : Nat :=
  line.column - indent line

/-- The three lines that show a place in its line, or the first two of them. -/
def excerpt (line : Line) : List String :=
  let number := toString line.number
  let bar := gutter number.length
  [bar, number ++ " | " ++ String.ofList (trimEnd (line.text.drop (indent line)))] ++
    ((caret? (shownColumn line)).map (bar ++ " " ++ ·)).toList

/-- What is wrong, in one line. -/
def heading (d : Diagnostic) : String :=
  match d.cause.tip with
  | none => "Error: " ++ d.cause.name
  | some tip => "Error: " ++ d.cause.name ++ " (" ++ tip ++ ")"

/-- The lines of the report on `source`, which was read from `file`. -/
def reportLines (d : Diagnostic) (file : String) (source : List Char) : List String :=
  d.heading :: ("-> " ++ file) :: ((Line.find? source d.position.offset).map excerpt).getD []

/-- The report as text, each line ended by a newline. -/
def report (d : Diagnostic) (file : String) (source : List Char) : String :=
  String.join ((d.reportLines file source).map (· ++ "\n"))

/-- Whether the report breaks off before the caret. -/
def breaksOff (d : Diagnostic) (source : List Char) : Bool :=
  match Line.find? source d.position.offset with
  | none => false
  | some line => (caret? (shownColumn line)).isNone

end CactLang.Diagnostic
