/-!
# Integer literals

The value of an integer literal is the positional value of its digits: base 16
after `0x` or `0X`, base 8 after a leading zero that is not alone, base 10
otherwise. A minus sign may stand in front, and one more sign of either kind may
stand before the digits. Values are 64-bit integers; beyond them a text has none.
-/

namespace CactLang.Literal

/-- The value of a digit in a base up to sixteen. -/
def digit? (base : Nat) (c : Char) : Option Nat :=
  let value? :=
    if c.isDigit then some (c.toNat - '0'.toNat)
    else if 'a' ≤ c ∧ c ≤ 'f' then some (c.toNat - 'a'.toNat + 10)
    else if 'A' ≤ c ∧ c ≤ 'F' then some (c.toNat - 'A'.toNat + 10)
    else none
  value?.filter (· < base)

/-- The number that digits extend `value` to. -/
def extend? (base : Nat) : (value : Nat) → List Char → Option Nat
  | value, [] => some value
  | value, c :: text =>
    match digit? base c with
    | none => none
    | some d => extend? base (value * base + d) text

/-- The positional value of a text of at least one digit and nothing else. -/
def natural? (base : Nat) : List Char → Option Nat
  | [] => none
  | c :: text => extend? base 0 (c :: text)

/-- A value as a 64-bit integer, from `-2 ^ 63` up to `2 ^ 63 - 1`. -/
def word? (value : Int) : Option Int :=
  if -9223372036854775808 ≤ value ∧ value < 9223372036854775808 then some value else none

/-- The value of digits with a sign of either kind or none. -/
def signed? (base : Nat) (text : List Char) : Option Int :=
  let value? : Option Int := match text with
    | '+' :: digits => (natural? base digits).map Int.ofNat
    | '-' :: digits => (natural? base digits).map fun n => -Int.ofNat n
    | digits => (natural? base digits).map Int.ofNat
  value?.bind word?

/-- The value of a literal without the minus sign in front. -/
def magnitude? : List Char → Option Int
  | '0' :: 'x' :: digits => signed? 16 digits
  | '0' :: 'X' :: digits => signed? 16 digits
  | '0' :: c :: digits => signed? 8 (c :: digits)
  | digits => signed? 10 digits

/-- The value of an integer literal. -/
def integer? : List Char → Option Int
  | '-' :: text => (magnitude? text).bind fun value => word? (-value)
  | text => magnitude? text

end CactLang.Literal
