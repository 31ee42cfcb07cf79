/-!
# Positions and spans

A position is a byte offset together with the name of the file it counts in; a
span runs from the first byte of a phrase to just past its last one. Offsets are
32-bit words: `Position.ofBytes` keeps an offset modulo `2 ^ 32`.
-/

namespace CactLang

/-- A place in a source file. -/
structure Position where
  /-- The number of bytes before the place. -/
  offset : Nat
  /-- The name of the file. -/
  file : String
  deriving DecidableEq, Repr, Inhabited

/-- The place `offset` bytes into `file`, as a 32-bit word. -/
def Position.ofBytes (file : String) (offset : Nat) : Position :=
  ⟨offset % Nat.pow 2 32, file⟩

/-- A stretch of source text. -/
structure Span where
  /-- The first byte of the stretch. -/
  start : Position
  /-- The byte after its last one. -/
  stop : Position
  deriving DecidableEq, Repr, Inhabited

/-- From the start of one span to the end of another. -/
def Span.between (first last : Span) : Span :=
  ⟨first.start, last.stop⟩

end CactLang
