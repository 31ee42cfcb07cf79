/-!
# Durations in words

A duration is shown in the largest unit of which it has at least one, with as
many decimals as it needs.
-/

namespace CactLang.Cli

/-- A fraction with `places` decimals, without the zeros at its end. -/
def decimals (fraction places : Nat) : String :=
  let digits := Nat.toDigits 10 fraction
  let padded := List.replicate (places - digits.length) '0' ++ digits
  let shown := (padded.reverse.dropWhile (· = '0')).reverse
  if fraction = 0 then "" else String.ofList ('.' :: shown)

/-- A number of nanoseconds in words. -/
def durationText (nanos : Nat) : String :=
  let scaled (places : Nat) (unit : String) : String :=
    toString (nanos / Nat.pow 10 places) ++ decimals (nanos % Nat.pow 10 places) places ++ unit
  if 1000000000 ≤ nanos then scaled 9 "s"
  else if 1000000 ≤ nanos then scaled 6 "ms"
  else if 1000 ≤ nanos then scaled 3 "µs"
  else toString nanos ++ "ns"

end CactLang.Cli
