import Leasehold.Time.Duration
import Leasehold.Time.Brief

/-!
# Lease lengths and the settings of locks

A lease is written to a store in whole seconds.  A lease of at least one second is rounded up, and a
shorter one is refused.  A held lease is renewed every half of its length, rounded up to a whole
second, so a renewal is due before the lease runs out.
-/

namespace Leasehold.Lock

/-- The largest number of seconds of a duration. -/
def maxSeconds : Nat := 18446744073709551615

/-- The whole seconds a lease takes in a store: the least number that covers it, or the largest
there is. -/
def leaseSeconds (lease : Duration) : Nat := min lease.secondsCeil maxSeconds

/-- The time between two renewals of a lease. -/
def renewalInterval (lease : Duration) : Duration :=
  Duration.ofSeconds ((leaseSeconds lease + 1) / 2)

/-- Whether a lease is long enough. -/
def IsLease (lease : Duration) : Prop := 1 ≤ lease.seconds

instance (lease : Duration) : Decidable (IsLease lease) :=
  inferInstanceAs (Decidable (1 ≤ lease.seconds))

/-- The lease as a store keeps it, in whole seconds, if it is long enough. -/
def wholeSeconds? (lease : Duration) : Option Duration :=
  if IsLease lease then some (Duration.ofSeconds (leaseSeconds lease)) else none

/-- What a lease that is too short is told. -/
def shortLeaseMessage (lease : Duration) : String :=
  "lease must be at least one second, got " ++ lease.brief

/-- The settings of a lock manager. -/
structure Config where
  /-- The wait between two attempts to acquire a lock. -/
  backoff : Duration := .ofNanos 200000000
  /-- How often a lease is renewed. -/
  maxRenewals : UInt32 := 3
  /-- The lease of a lock that is acquired without one. -/
  lease : Duration := .ofSeconds 10
deriving DecidableEq, Repr

instance : Inhabited Config := ⟨{}⟩

end Leasehold.Lock
