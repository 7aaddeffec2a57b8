/-!
# Spans of time

A duration counts nanoseconds.  The longest one is a nanosecond short of `2 ^ 64` seconds, so the
whole seconds of a duration always fit a 64-bit word.  The bound is a field of the structure: no
operation checks it and no theorem assumes it.

Operations whose exact result may be too long come in two forms.  The one that ends in `?` has no
result then, the other one stops at the longest duration.
-/

namespace Leasehold

/-- A span of time, in nanoseconds. -/
@[ext] structure Duration where
  /-- The number of nanoseconds. -/
  nanos : Nat
  /-- The span is shorter than `2 ^ 64` seconds. -/
  nanos_lt : nanos < 18446744073709551616000000000 := by omega
deriving DecidableEq, Repr

namespace Duration

instance : LE Duration := ⟨fun a b => a.nanos ≤ b.nanos⟩

instance : LT Duration := ⟨fun a b => a.nanos < b.nanos⟩

instance (a b : Duration) : Decidable (a ≤ b) := inferInstanceAs (Decidable (a.nanos ≤ b.nanos))

instance (a b : Duration) : Decidable (a < b) := inferInstanceAs (Decidable (a.nanos < b.nanos))

/-- The empty span. -/
def zero : Duration := { nanos := 0 }

/-- The longest span. -/
def longest : Duration := { nanos := 18446744073709551615999999999 }

instance : Inhabited Duration := ⟨zero⟩

/-- The span of `n` nanoseconds, if it is not too long. -/
def ofNanos? (n : Nat) : Option Duration :=
  if h : n < 18446744073709551616000000000 then some ⟨n, h⟩ else none

/-- The span of `n` nanoseconds, or the longest one. -/
def ofNanos (n : Nat) : Duration := (ofNanos? n).getD longest

/-- The span of `n` seconds, or the longest one. -/
def ofSeconds (n : Nat) : Duration := ofNanos (n * 1000000000)

/-- The whole seconds of a span. -/
def seconds (d : Duration) : Nat := d.nanos / 1000000000

/-- What a span has beyond its whole seconds, in nanoseconds. -/
def subsecond (d : Duration) : Nat := d.nanos % 1000000000

/-- The whole milliseconds of a span. -/
def millis (d : Duration) : Nat := d.nanos / 1000000

/-- The number of seconds in a span, with a started second counted in full. -/
def secondsCeil (d : Duration) : Nat := (d.nanos + 999999999) / 1000000000

/-- Whether a span is empty. -/
def isZero (d : Duration) : Bool := d.nanos == 0

theorem seconds_lt (d : Duration) : d.seconds < 18446744073709551616 := by
  have := d.nanos_lt
  simp only [seconds]
  omega

theorem nanos_ofNanos {n : Nat} (h : n < 18446744073709551616000000000) :
    (ofNanos n).nanos = n := by
  simp [ofNanos, ofNanos?, h]

end Duration

end Leasehold
