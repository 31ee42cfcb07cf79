import CactLang.Text.Width
import CactLang.Token.Scan

/-!
# Byte cursors

A place in a source that is moved by whole bytes. It can be moved past the end
or into the middle of a character; only reading there is refused. The count of
bytes is a 64-bit word, and a move that would overflow it is refused too.
-/

namespace CactLang

open Text (width dropBytes?)

/-- A byte offset into a source. -/
structure ByteCursor where
  /-- The text. -/
  source : List Char
  /-- The name positions carry. -/
  file : String
  /-- The bytes passed. -/
  offset : Nat := 0

namespace ByteCursor

/-- The offset `bytes` further on, if it fits a word. -/
def offsetAfter? (c : ByteCursor) (bytes : Nat) : Option Nat :=
  if c.offset + bytes < Nat.pow 2 64 then some (c.offset + bytes) else none

/-- Moves on, whatever stands there. -/
def advance? (c : ByteCursor) (bytes : Nat) : Option ByteCursor :=
  (c.offsetAfter? bytes).map fun offset => { c with offset }

/-- The text from the cursor on. -/
def remainder? (c : ByteCursor) : Option (List Char) :=
  dropBytes? c.source c.offset

/-- The character at the cursor, the null character standing for the end. -/
def peek? (c : ByteCursor) : Option Char :=
  c.remainder?.map (·.headD '\x00')

/-- Whether the end is reached or passed. -/
def isAtEnd (c : ByteCursor) : Bool :=
  width c.source ≤ c.offset

/-- The cursor as a position. -/
def position (c : ByteCursor) : Position :=
  Position.ofBytes c.file c.offset

/-- The span of the next `bytes` bytes. -/
def spanOf? (c : ByteCursor) (bytes : Nat) : Option Span :=
  (c.offsetAfter? bytes).map fun _ => Span.ofBytes c.file c.offset bytes

end ByteCursor

end CactLang
