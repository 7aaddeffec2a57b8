import Leasehold.Time.Instant

/-!
# What clocks show

Stores and pools read a clock of their own.  It may show the simulated time, or be moved by hand, or
stand still.
-/

namespace Leasehold

/-- The clock that somebody reads. -/
inductive Face where
  /-- The simulated time. -/
  | simulated
  /-- A clock that is moved by hand. -/
  | manual (reading : Instant)
  /-- A clock that always shows its epoch. -/
  | stopped
deriving DecidableEq, Repr

namespace Face

/-- What a clock shows at a simulated time. -/
def read (face : Face) (now : Instant) : Instant :=
  match face with
  | simulated => now
  | manual reading => reading
  | stopped => .epoch

/-- The clock after a hand has set it, which moves only a clock that is moved by hand. -/
def set (face : Face) (reading : Instant) : Face :=
  match face with
  | manual _ => manual reading
  | face => face

end Face

end Leasehold
