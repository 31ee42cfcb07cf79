import CactLang.Literal.Integer

/-!
# Decimal literals

A literal with a point or an exponent denotes a rational number exactly: some
digits, taken as one integer, times a power of ten. A floating type holds it if
rounding to the nearest value of that type stays finite, which is the case below
the midpoint between the largest value and the next one there would be.

The comparison is exact for any number of digits. A power of ten is only computed
once it is known to be of the size of the numbers compared. Of an exponent, the
digits count until it has reached `2 ^ 16`: from there on it outweighs all digits
that a literal of ordinary length has before it.
-/

namespace CactLang.Literal

/-- The number `digits * 10 ^ exponent`; the sign of a text is left out. -/
structure Decimal where
  digits : Nat
  exponent : Int
  deriving DecidableEq, Repr

namespace Decimal

/-- The text after a sign, if it has one. -/
def unsigned : List Char → List Char
  | c :: text => if c = '+' ∨ c = '-' then text else c :: text
  | [] => []

/-- The size at which an exponent takes no more digits. -/
def exponentLimit : Nat := Nat.pow 2 16

/-- The exponent that digits extend `value` to; those that come after the limit
is reached do not count. -/
def extendExponent? : (value : Nat) → List Char → Option Nat
  | value, [] => some value
  | value, c :: text =>
    match digit? 10 c with
    | none => none
    | some d => extendExponent? (if value < exponentLimit then value * 10 + d else value) text

/-- The size of an exponent written with at least one digit and nothing else. -/
def exponentSize? : List Char → Option Nat
  | [] => none
  | c :: text => extendExponent? 0 (c :: text)

/-- The value of an exponent; an empty text is none at all, which is zero. -/
def exponent? : List Char → Option Int
  | [] => some 0
  | c :: text =>
    if c = 'e' ∨ c = 'E' then
      match text with
      | '-' :: digits => (exponentSize? digits).map fun n => -Int.ofNat n
      | text => (exponentSize? (unsigned text)).map Int.ofNat
    else none

/-- The digits after a point, if one comes first, and what follows them. -/
def fraction : List Char → List Char × List Char
  | '.' :: text => (text.takeWhile Char.isDigit, text.dropWhile Char.isDigit)
  | text => ([], text)

/-- The number a text denotes: digits with a point or none among them, at least
one digit in all, and an exponent or none. -/
def ofText? (text : List Char) : Option Decimal := do
  let text := unsigned text
  let whole := text.takeWhile Char.isDigit
  let (part, rest) := fraction (text.dropWhile Char.isDigit)
  let digits ← natural? 10 (whole ++ part)
  let exponent ← exponent? rest
  return ⟨digits, exponent - part.length⟩

/-- Whether the number is less than a positive bound. If the power of ten alone
exceeds the bound, or the digits are fewer than it divides away, it is known
without computing the power. -/
def isBelow (d : Decimal) (bound : Nat) : Bool :=
  match d.exponent with
  | .ofNat e => d.digits = 0 || (e ≤ bound.log2 && d.digits * Nat.pow 10 e < bound)
  | .negSucc e => d.digits.log2 ≤ e || d.digits < bound * Nat.pow 10 (e + 1)

end Decimal

/-- The least number that rounds to no finite `double`. -/
def doubleBound : Nat := Nat.pow 2 1024 - Nat.pow 2 970

/-- The least number that rounds to no finite `float`. -/
def floatBound : Nat := Nat.pow 2 128 - Nat.pow 2 103

/-- Whether a text denotes a number below a bound. -/
def denotesBelow (bound : Nat) (text : List Char) : Bool :=
  match Decimal.ofText? text with
  | some d => d.isBelow bound
  | none => false

/-- The text without the marks of a `float` at its end. -/
def withoutSuffix (text : List Char) : List Char :=
  (text.reverse.dropWhile fun c => c = 'f' || c = 'F').reverse

end CactLang.Literal
