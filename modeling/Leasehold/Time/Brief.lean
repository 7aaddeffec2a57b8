import Leasehold.Text.Numeral
import Leasehold.Time.Duration

/-!
# Durations in brief

The short text of a duration, as messages give it: one number and one unit.  The unit is the
largest of `s`, `ms`, `µs` and `ns` of which the duration holds at least one, and `ns` for the
empty duration.  The number is exact, with a fraction only where one is needed: `1.5ms`,
`999.999999ms`, `0ns`.
-/

namespace Leasehold.Duration

/-- The decimal text of `n / 10 ^ places`, without zeros at the end of the fraction. -/
def briefNumber (n places : Nat) : List Char :=
  let fraction := Numeral.dropTrailingZeros (Numeral.padded places (n % Nat.pow 10 places))
  Numeral.decimal (n / Nat.pow 10 places) ++ if fraction.isEmpty then [] else '.' :: fraction

/-- The short text of a duration. -/
def brief (d : Duration) : String :=
  if 1000000000 ≤ d.nanos then String.ofList (briefNumber d.nanos 9 ++ ['s'])
  else if 1000000 ≤ d.nanos then String.ofList (briefNumber d.nanos 6 ++ ['m', 's'])
  else if 1000 ≤ d.nanos then String.ofList (briefNumber d.nanos 3 ++ ['µ', 's'])
  else String.ofList (briefNumber d.nanos 0 ++ ['n', 's'])

end Leasehold.Duration
