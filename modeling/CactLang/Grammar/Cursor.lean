import CactLang.Diagnostic
import CactLang.Token

/-!
# Reading tokens

A cursor stands on a token of a list that ends in an end-of-input token, and
never moves past that last one. A phrase is what is read at a cursor: it gives a
value or a diagnostic, and in either case the cursor where reading stopped.

Loops over phrases are all written with `many`, which goes round at most once for
each token that is left. That is no restriction: what it repeats takes at least
one token, and nothing repeats at the end of the input.
-/

namespace CactLang

/-- A place in a list of tokens, and the count of node identities handed out. -/
structure Cursor where
  /-- The token to be read next. -/
  current : Token
  /-- The tokens after it. -/
  ahead : List Token
  /-- The end of the token before it. -/
  behind : Position
  /-- The number of identities handed out. -/
  nodeCount : Nat
  deriving DecidableEq, Repr

namespace Cursor

/-- The cursor on the first token. An end-of-input token is put after the last
token, unless it is one. -/
def ofTokens (tokens : List Token) (file : String) : Cursor :=
  let origin : Position := ⟨0, file⟩
  match tokens with
  | [] => ⟨.endOfInput origin, [], origin, 0⟩
  | first :: rest =>
    let last := rest.getLastD first
    let closing := if last.kind = .eof then [] else [.endOfInput last.span.stop]
    ⟨first, rest ++ closing, origin, 0⟩

/-- The cursor on the next token; the last token is not left. -/
def advance (c : Cursor) : Cursor :=
  match c.ahead with
  | [] => c
  | next :: ahead => { c with current := next, ahead, behind := c.current.span.stop }

/-- The token some places ahead, or else the last one. -/
def peek (c : Cursor) (places : Nat) : Token :=
  ((c.current :: c.ahead)[places]?).getD (c.ahead.getLastD c.current)

/-- Whether anything but the end of the input stands here. -/
def hasTokens (c : Cursor) : Bool :=
  c.current.kind != .eof

/-- The diagnostic that the current token is out of place. -/
def unexpected (c : Cursor) (hint : String) : Diagnostic :=
  ⟨.unexpectedHint c.current.text hint, c.current.span.start, none⟩

/-- The span from a position to the end of the token before the cursor. -/
def spanFrom (c : Cursor) (start : Position) : Span :=
  ⟨start, c.behind⟩

end Cursor

/-- The diagnostic that a token stands where another had to. -/
def Token.unexpected (t : Token) : Diagnostic :=
  ⟨.unexpected t.text, t.span.start, none⟩

/-- What can be read at a cursor. -/
abbrev Phrase (α : Type) := EStateM Diagnostic Cursor α

namespace Phrase

/-! ## Single tokens -/

/-- The kind of the current token. -/
def kind : Phrase TokenKind := do
  return (← get).current.kind

/-- The start of the current token. -/
def position : Phrase Position := do
  return (← get).current.span.start

/-- Takes the current token, whatever it is. -/
def advance : Phrase Token :=
  modifyGet fun c => (c.current, c.advance)

/-- Takes a token of one kind, and gives up with `error` before any other. -/
def expectOr (expected : TokenKind) (error : Cursor → Diagnostic) : Phrase Token := do
  let c ← get
  if c.current.kind = expected then advance else throw (error c)

/-- Takes a token of one kind. -/
def expect (expected : TokenKind) : Phrase Token :=
  expectOr expected (·.current.unexpected)

/-- Gives up at the current token, saying what was expected. -/
def unexpected {α : Type} (hint : String) : Phrase α := do
  throw ((← get).unexpected hint)

/-! ## Nodes -/

/-- Hands out the next identity. -/
def freshId : Phrase NodeId :=
  modifyGet fun c => (⟨c.nodeCount⟩, { c with nodeCount := c.nodeCount + 1 })

/-- The span from a position to the end of the last token taken. -/
def spanFrom (start : Position) : Phrase Span := do
  return (← get).spanFrom start

/-! ## Repetition -/

/-- Reads `item` for as long as `more` holds of the current token, at most
`rounds` times. -/
def manyWithin {α : Type} (more : TokenKind → Bool) (item : Phrase α) : Nat → Phrase (List α)
  | 0 => pure []
  | rounds + 1 => do
    if more (← kind) then
      let a ← item
      let rest ← manyWithin more item rounds
      return a :: rest
    else
      return []

/-- Reads `item` for as long as `more` holds of the current token. -/
def many {α : Type} (more : TokenKind → Bool) (item : Phrase α) : Phrase (List α) := do
  manyWithin more item (← get).ahead.length

/-- Reads one or more items with commas between them. -/
def commaSeparated {α : Type} (item : Phrase α) : Phrase (List α) := do
  let first ← item
  let rest ← many (· = .comma) (advance *> item)
  return first :: rest

/-- Reads items with commas between them, or none, up to a closing token. -/
def listUntil {α : Type} (close : TokenKind) (item : Phrase α) : Phrase (List α) := do
  let items ← if (← kind) = close then pure [] else commaSeparated item
  let _ ← expect close
  return items

/-- Reads bracketed items for as long as brackets open. -/
def bracketed {α : Type} (item : Phrase α) : Phrase (List α) :=
  many (· = .openBracket) do
    let _ ← advance
    let a ← item
    let _ ← expect .closeBracket
    return a

end Phrase

end CactLang
