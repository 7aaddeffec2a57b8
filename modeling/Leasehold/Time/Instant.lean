import Leasehold.Time.Duration

/-!
# Points in time

An instant is the reading of some clock, as the time since that clock's epoch.  A clock reads less
than `2 ^ 63` seconds, so a sum of an instant and a duration need not exist: `Instant.after?` has no
result then.  Everything that waits for such an instant waits for ever, and a lease that would end
there does not end.
-/

namespace Leasehold

/-- A reading of a clock. -/
@[ext] structure Instant where
  /-- Nanoseconds since the epoch of the clock. -/
  nanos : Nat
  /-- The reading is less than `2 ^ 63` seconds. -/
  nanos_lt : nanos < 9223372036854775808000000000 := by omega
deriving DecidableEq, Repr

namespace Instant

instance : LE Instant := ⟨fun a b => a.nanos ≤ b.nanos⟩

instance : LT Instant := ⟨fun a b => a.nanos < b.nanos⟩

instance (a b : Instant) : Decidable (a ≤ b) := inferInstanceAs (Decidable (a.nanos ≤ b.nanos))

instance (a b : Instant) : Decidable (a < b) := inferInstanceAs (Decidable (a.nanos < b.nanos))

/-- The reading of a clock that has just started. -/
def epoch : Instant := { nanos := 0 }

instance : Inhabited Instant := ⟨epoch⟩

/-- The instant that comes `d` after `t`, if a clock can read it. -/
def after? (t : Instant) (d : Duration) : Option Instant :=
  if h : t.nanos + d.nanos < 9223372036854775808000000000 then some ⟨t.nanos + d.nanos, h⟩ else none

/-- The time from `s` to `t`, and none at all if `t` comes first. -/
def since (t s : Instant) : Duration :=
  { nanos := t.nanos - s.nanos, nanos_lt := by have := t.nanos_lt; omega }

/-- The reading as a span of time since the epoch. -/
def sinceEpoch (t : Instant) : Duration := t.since epoch

theorem after?_of_lt {t : Instant} {d : Duration}
    (h : t.nanos + d.nanos < 9223372036854775808000000000) :
    t.after? d = some ⟨t.nanos + d.nanos, h⟩ := by
  simp [after?, h]

theorem after?_zero (t : Instant) : t.after? .zero = some t := by
  have hlt : t.nanos + Duration.zero.nanos < 9223372036854775808000000000 := t.nanos_lt
  exact after?_of_lt hlt

theorem nanos_of_after?_eq_some {t u : Instant} {d : Duration} (h : t.after? d = some u) :
    u.nanos = t.nanos + d.nanos := by
  simp only [after?] at h
  split at h
  · cases h; rfl
  · contradiction

theorem le_of_after?_eq_some {t u : Instant} {d : Duration} (h : t.after? d = some u) : t ≤ u := by
  have := nanos_of_after?_eq_some h
  show t.nanos ≤ u.nanos
  omega

end Instant

/-- The earlier of two instants that may be missing.  A missing instant never comes. -/
def earliest : Option Instant → Option Instant → Option Instant
  | none, t => t
  | t, none => t
  | some t, some u => if t ≤ u then some t else some u

end Leasehold
