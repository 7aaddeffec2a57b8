import Leasehold.Lock.Config

/-!
# Lease arithmetic

A lease that is accepted is a positive number of whole seconds, and the time
between two renewals is half of it, rounded up to a whole second.  So two
intervals are never shorter than the lease, and one is never longer.
-/

namespace Leasehold

theorem Duration.nanos_ofSeconds {n : Nat} (h : n ≤ Lock.maxSeconds) :
    (Duration.ofSeconds n).nanos = n * 1000000000 := by
  have hlt : n * 1000000000 < 18446744073709551616000000000 := by
    simp only [Lock.maxSeconds] at h
    omega
  exact nanos_ofNanos hlt

namespace Lock

variable {lease lease' : Duration} {n : Nat}

theorem secondsCeil_le_iff : lease.secondsCeil ≤ n ↔ lease.nanos ≤ n * 1000000000 := by
  rw [Duration.secondsCeil]
  omega

theorem leaseSeconds_le (lease : Duration) : leaseSeconds lease ≤ maxSeconds := Nat.min_le_right _ _

/-- Whole seconds stay what they are. -/
theorem leaseSeconds_ofSeconds (h : n ≤ maxSeconds) :
    leaseSeconds (Duration.ofSeconds n) = n := by
  simp only [leaseSeconds, Duration.secondsCeil, Duration.nanos_ofSeconds h]
  omega

theorem one_le_leaseSeconds (h : IsLease lease) : 1 ≤ leaseSeconds lease := by
  simp only [IsLease, Duration.seconds] at h
  simp only [leaseSeconds, Duration.secondsCeil, maxSeconds]
  omega

theorem leaseSeconds_le_iff (h : n < maxSeconds) :
    leaseSeconds lease ≤ n ↔ lease ≤ Duration.ofSeconds n := by
  show _ ↔ lease.nanos ≤ (Duration.ofSeconds n).nanos
  rw [Duration.nanos_ofSeconds (Nat.le_of_lt h), ← secondsCeil_le_iff, leaseSeconds]
  omega

theorem leaseSeconds_mono (h : lease ≤ lease') : leaseSeconds lease ≤ leaseSeconds lease' := by
  have hnanos : lease.nanos ≤ lease'.nanos := h
  simp only [leaseSeconds, Duration.secondsCeil]
  omega

/-- A lease in whole seconds is accepted as it is. -/
theorem wholeSeconds?_ofSeconds (hpos : 1 ≤ n) (hle : n ≤ maxSeconds) :
    wholeSeconds? (.ofSeconds n) = some (.ofSeconds n) := by
  have hlease : IsLease (.ofSeconds n) := by
    rw [IsLease, Duration.seconds, Duration.nanos_ofSeconds hle]
    omega
  rw [wholeSeconds?, if_pos hlease, leaseSeconds_ofSeconds hle]

/-- What is written for an accepted lease: its length, and the time between two
renewals. -/
structure IsWritten (duration interval : Duration) (seconds : Nat) : Prop where
  pos : 1 ≤ seconds
  le : seconds ≤ maxSeconds
  duration : duration = Duration.ofSeconds seconds
  interval : interval = Duration.ofSeconds ((seconds + 1) / 2)

/-- An accepted lease is written in whole seconds. -/
theorem isWritten_of_wholeSeconds? {lease ttl : Duration} (h : wholeSeconds? lease = some ttl) :
    IsWritten ttl (renewalInterval ttl) (leaseSeconds lease) := by
  simp only [wholeSeconds?] at h
  split at h
  next hlease =>
    cases h
    have hle := leaseSeconds_le lease
    refine ⟨one_le_leaseSeconds hlease, hle, rfl, ?_⟩
    simp only [renewalInterval, leaseSeconds_ofSeconds hle]
  next => cases h

namespace IsWritten

variable {duration interval : Duration} {seconds : Nat}

theorem nanos_duration (h : IsWritten duration interval seconds) :
    duration.nanos = seconds * 1000000000 := by
  rw [h.duration, Duration.nanos_ofSeconds h.le]

theorem nanos_interval (h : IsWritten duration interval seconds) :
    interval.nanos = (seconds + 1) / 2 * 1000000000 := by
  have hle := h.le
  have hpos := h.pos
  rw [h.interval, Duration.nanos_ofSeconds (by omega)]

/-- Two intervals cover the lease. -/
theorem duration_le (h : IsWritten duration interval seconds) :
    duration.nanos ≤ interval.nanos + interval.nanos := by
  rw [h.nanos_duration, h.nanos_interval]
  omega

theorem interval_le (h : IsWritten duration interval seconds) :
    interval.nanos ≤ duration.nanos := by
  have hpos := h.pos
  rw [h.nanos_duration, h.nanos_interval]
  omega

theorem interval_pos (h : IsWritten duration interval seconds) : 0 < interval.nanos := by
  have hpos := h.pos
  rw [h.nanos_interval]
  omega

end IsWritten

end Lock

end Leasehold
