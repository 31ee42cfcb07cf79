import CactLang.Text.Width

/-!
# The line of an offset

Reports show the line an error lies in. A line includes the newline that ends
it. The end of the source is an offset too: it belongs to what follows the last
newline, and carries the number of the last line that has any text.
-/

namespace CactLang

open Text (width)

/-- A line of a source and a place in it. -/
structure Line where
  /-- Lines count from one. -/
  number : Nat
  /-- The line with its newline, if it has one. -/
  text : List Char
  /-- The number of bytes between the start of the line and the place. -/
  column : Nat
  deriving DecidableEq, Repr

namespace Line

/-- The lines of a text, each with the newline that ends it. -/
def split : List Char → List (List Char)
  | [] => []
  | c :: text =>
    if c = '\n' then [c] :: split text
    else match split text with
      | [] => [[c]]
      | line :: lines => (c :: line) :: lines

/-- What follows the last newline of a text. -/
def lastSegment (text : List Char) : List Char :=
  (text.reverse.takeWhile (· ≠ '\n')).reverse

/-- The line among `lines` that holds the byte `offset`, the first of them being
line `number` and starting at byte `start`. -/
def locate? (offset : Nat) : (number start : Nat) → List (List Char) → Option Line
  | _, _, [] => none
  | number, start, line :: lines =>
    let stop := start + width line
    if start ≤ offset ∧ offset < stop then some ⟨number, line, offset - start⟩
    else locate? offset (number + 1) stop lines

/-- The line of a byte offset, unless it lies beyond the end of the source. -/
def find? (source : List Char) (offset : Nat) : Option Line :=
  if width source < offset then none
  else
    let lines := split source
    match locate? offset 1 0 lines with
    | some line => some line
    | none =>
      let last := lastSegment source
      some ⟨max (lines.length + 1) 2 - 1, last, width last⟩

end Line

end CactLang
