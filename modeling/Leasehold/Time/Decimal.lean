import Leasehold.Text.Numeral
import Leasehold.Time.Duration

/-!
# Durations as decimal seconds

The report form of a duration: its seconds with all nine digits of the fraction, such as
`1.500000000`.  Reading also takes a shorter fraction, or none.
-/

namespace Leasehold.Duration

/-- The seconds of a duration with nine digits after the point. -/
def decimal (d : Duration) : String :=
  String.ofList (Numeral.decimal d.seconds ++ '.' :: Numeral.padded 9 d.subsecond)

/-- Reads seconds with a fraction of at most nine digits. -/
def ofDecimal? (s : String) : Option Duration :=
  let cs := s.toList
  let whole := cs.takeWhile Numeral.isDigit
  match cs.drop whole.length with
  | [] => if whole.isEmpty then none else ofNanos? (Numeral.value whole * 1000000000)
  | '.' :: fraction =>
      if whole.isEmpty ∨ fraction.isEmpty ∨ 9 < fraction.length ∨ !fraction.all Numeral.isDigit then
        none
      else
        ofNanos? (Numeral.value whole * 1000000000 +
          Numeral.value fraction * Nat.pow 10 (9 - fraction.length))
  | _ => none

end Leasehold.Duration
