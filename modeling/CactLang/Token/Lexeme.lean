import CactLang.Text.Blank
import CactLang.Token

/-!
# Lexemes

The shapes that words, numbers, operators and layout take in a source. A class
of lexemes claims some characters at the front of a text; of the classes in
`LexemeClass.all` the first with a claim wins, so their order matters: a float
is tried before a double, a double before an integer, `==` before `=`, and a
comment before a division sign.

> `LexemeClass.spelling_take`: the text of a lexeme is what was taken for it.
>
> `Lexeme.length_rest_lt`: a lexeme leaves less than it was cut from, which is
> why cutting lexemes off a text comes to an end.
-/

namespace CactLang

open Text (isBlank)

/-! ## Claims

How many characters a shape takes at the front of a text; zero if it does not
stand there. -/

namespace Claim

/-- Letters and the underscore. -/
def isWordStart (c : Char) : Bool :=
  c.isAlpha || c = '_'

/-- What may follow the first character of a word. -/
def isWordRest (c : Char) : Bool :=
  c.isAlphanum || c = '_'

/-- The digits of base sixteen. -/
def isHexDigit (c : Char) : Bool :=
  c.isDigit || ('a' ≤ c && c ≤ 'f') || ('A' ≤ c && c ≤ 'F')

/-- A run of characters of one sort. -/
def run (p : Char → Bool) (text : List Char) : Nat :=
  (text.takeWhile p).length

/-- A word: a letter or underscore, then letters, digits and underscores. -/
def word : List Char → Nat
  | c :: text => if isWordStart c then run isWordRest text + 1 else 0
  | [] => 0

/-- A decimal or octal integer: a run of digits. -/
def digits : List Char → Nat :=
  run Char.isDigit

/-- A hexadecimal integer: `0x` or `0X` and at least one digit. -/
def hexadecimal : List Char → Nat
  | '0' :: x :: text =>
    if x = 'x' || x = 'X' then
      match run isHexDigit text with
      | 0 => 0
      | n + 1 => n + 3
    else 0
  | _ => 0

/-- One sign, if there is one. -/
def sign : List Char → Nat
  | c :: _ => if c = '+' || c = '-' then 1 else 0
  | [] => 0

/-- An exponent: `e` or `E`, a sign or none, and at least one digit. -/
def exponent : List Char → Nat
  | c :: text =>
    if c = 'e' || c = 'E' then
      let s := sign text
      match digits (text.drop s) with
      | 0 => 0
      | n + 1 => n + s + 2
    else 0
  | [] => 0

/-- A double: digits around a point, at least one on either side, and an
exponent or none; or digits without a point and an exponent. -/
def double (text : List Char) : Nat :=
  let whole := digits text
  match text.drop whole with
  | '.' :: rest =>
    let fraction := digits rest
    if whole + fraction = 0 then 0
    else whole + 1 + fraction + exponent (rest.drop fraction)
  | rest =>
    if whole = 0 then 0
    else match exponent rest with
      | 0 => 0
      | n + 1 => whole + n + 1

/-- A float: a double followed by `f` or `F`. -/
def float (text : List Char) : Nat :=
  match double text with
  | 0 => 0
  | n + 1 =>
    match text.drop (n + 1) with
    | c :: _ => if c = 'f' || c = 'F' then n + 2 else 0
    | [] => 0

/-- A run of blanks. -/
def blanks : List Char → Nat :=
  run isBlank

/-- A comment from `//` up to the end of the line. -/
def lineComment : List Char → Nat
  | '/' :: '/' :: text => run (· ≠ '\n') text + 2
  | _ => 0

/-- The number of characters up to and including the first `*/`. -/
def commentEnd? : List Char → Option Nat
  | [] => none
  | '*' :: '/' :: _ => some 2
  | _ :: text => (commentEnd? text).map (· + 1)

/-- A comment from `/*` to the first `*/` after it. -/
def blockComment : List Char → Nat
  | '/' :: '*' :: text =>
    match commentEnd? text with
    | some n => n + 2
    | none => 0
  | _ => 0

/-- As many characters as a literal has, where a fixed text stands. -/
def fixed (pattern literal : List Char) (text : List Char) : Nat :=
  if pattern.isPrefixOf text then literal.length else 0

/-- Where a fixed text stands, what is taken is this text. -/
theorem take_fixed {pattern text : List Char} (h : fixed pattern pattern text ≠ 0) :
    text.take (fixed pattern pattern text) = pattern := by
  unfold fixed at h ⊢
  split at h
  next hstart =>
    obtain ⟨rest, rfl⟩ := List.isPrefixOf_iff_prefix.mp hstart
    rw [if_pos hstart, List.take_left]
  next => exact absurd rfl h

end Claim

/-! ## Classes -/

/-- A class of lexemes. -/
structure LexemeClass where
  /-- How many characters the class takes at the front of a text. -/
  claim : List Char → Nat
  /-- The token a lexeme of the class makes; layout makes none. -/
  kind : List Char → Option TokenKind
  /-- The text of a lexeme, given the characters that were taken for it. -/
  spelling : List Char → List Char := id

/-- A row of the table of punctuation and operators. -/
structure SymbolRow where
  /-- The text that has to stand in a source. -/
  pattern : String
  /-- The text that the token has, and whose length is taken. -/
  literal : String
  kind : TokenKind
  deriving DecidableEq, Repr

/-- Punctuation and operators, a longer one before its own beginning. -/
def symbols : List SymbolRow :=
  [⟨"[", "[", .openBracket⟩, ⟨"]", "]", .closeBracket⟩,
    ⟨"\x7b", "\x7b", .openCurly⟩, ⟨"\x7d", "\x7d", .closeCurly⟩,
    ⟨"(", "(", .openParen⟩, ⟨")", ")", .closeParen⟩,
    ⟨"==", "==", .equal⟩, ⟨"!=", "!=", .notEqual⟩, ⟨"!", "!", .not⟩, ⟨"=", "=", .assign⟩,
    ⟨"<=", "<=", .lessEqual⟩, ⟨"<", "<", .less⟩,
    ⟨">=", ">=", .greaterEqual⟩, ⟨">", ">", .greater⟩,
    ⟨"||", "||", .or⟩, ⟨"&&", "&&", .and⟩,
    ⟨";", ";", .semicolon⟩, ⟨",", ",", .comma⟩,
    ⟨"+", "+", .plus⟩, ⟨"-", "-", .dash⟩, ⟨"/", "/", .slash⟩, ⟨"*", "*", .star⟩,
    ⟨"%", "%", .percent⟩]

/-- The two texts of a row agree, so a token has the text that was found for it. -/
theorem symbols_agree : ∀ row ∈ symbols, row.literal = row.pattern := by
  decide

namespace LexemeClass

/-- Layout: claimed, but no token. -/
def layout (claim : List Char → Nat) : LexemeClass where
  claim := claim
  kind _ := none

/-- A class whose lexemes are all tokens of one kind. -/
def token (kind : TokenKind) (claim : List Char → Nat) : LexemeClass where
  claim := claim
  kind _ := some kind

/-- Words, which may be reserved. -/
def word : LexemeClass where
  claim := Claim.word
  kind text := some (TokenKind.ofWord (String.ofList text))

/-- The class of one symbol. Its lexeme is the literal, whatever was taken. -/
def symbol (row : SymbolRow) : LexemeClass where
  claim := Claim.fixed row.pattern.toList row.literal.toList
  kind _ := some row.kind
  spelling _ := row.literal.toList

/-- Every class, in the order in which they are tried. -/
def all : List LexemeClass :=
  [word,
    token .floatLiteral Claim.float,
    token .doubleLiteral Claim.double,
    token .integerLiteral Claim.hexadecimal,
    token .integerLiteral Claim.digits,
    layout Claim.blanks,
    layout Claim.lineComment,
    layout Claim.blockComment] ++
  symbols.map symbol

/-- The text of a lexeme is what was taken for it. -/
theorem spelling_take {cls : LexemeClass} (hcls : cls ∈ all) (text : List Char)
    (hclaim : cls.claim text ≠ 0) :
    cls.spelling (text.take (cls.claim text)) = text.take (cls.claim text) := by
  unfold all at hcls
  rcases List.mem_append.mp hcls with hcls | hcls
  · simp only [List.mem_cons, List.not_mem_nil, or_false] at hcls
    rcases hcls with rfl | rfl | rfl | rfl | rfl | rfl | rfl | rfl <;> rfl
  · obtain ⟨row, hrow, rfl⟩ := List.mem_map.mp hcls
    have hclaim' : Claim.fixed row.pattern.toList row.literal.toList text ≠ 0 := hclaim
    show row.literal.toList = text.take (Claim.fixed row.pattern.toList row.literal.toList text)
    rw [symbols_agree row hrow] at hclaim' ⊢
    exact (Claim.take_fixed hclaim').symm

end LexemeClass

/-! ## Cutting -/

/-- A lexeme cut off the front of a text. -/
structure Lexeme where
  /-- The token it makes, if it is not layout. -/
  kind : Option TokenKind
  /-- Its characters. -/
  text : List Char
  /-- What follows it. -/
  rest : List Char

namespace Lexeme

/-- The lexeme a class claims at the front of a text. -/
def ofClass? (text : List Char) (cls : LexemeClass) : Option Lexeme :=
  match cls.claim text with
  | 0 => none
  | n + 1 =>
    let taken := text.take (n + 1)
    some ⟨cls.kind taken, cls.spelling taken, text.drop (n + 1)⟩

/-- The lexeme at the front of a text: that of the first class with a claim. -/
def first? (text : List Char) : Option Lexeme :=
  LexemeClass.all.findSome? (ofClass? text)

/-- A lexeme and what follows it are the text it was cut from. -/
theorem text_append_rest {text : List Char} {l : Lexeme} (h : first? text = some l) :
    l.text ++ l.rest = text := by
  obtain ⟨cls, hcls, hl⟩ := List.exists_of_findSome?_eq_some h
  unfold ofClass? at hl
  split at hl
  next => cases hl
  next n hn =>
    cases hl
    have hspelling := LexemeClass.spelling_take hcls text (by omega)
    rw [hn] at hspelling
    rw [hspelling, List.take_append_drop]

/-- A lexeme leaves less than it was cut from. -/
theorem length_rest_lt {c : Char} {text : List Char} {l : Lexeme}
    (h : first? (c :: text) = some l) : l.rest.length < (c :: text).length := by
  obtain ⟨cls, _, hl⟩ := List.exists_of_findSome?_eq_some h
  unfold ofClass? at hl
  split at hl
  · cases hl
  · cases hl
    simp only [List.length_drop, List.length_cons]
    omega

end Lexeme

end CactLang
