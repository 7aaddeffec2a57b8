import Leasehold.Proofs.Lock.Arithmetic
import Leasehold.Proofs.Time.Spelled
import Mathlib.Order.Bounds.Basic

/-!
# How leases are rounded

A lease is rounded up to whole seconds, and for the time between two renewals the half of
them is rounded up once more.  Two roundings come to the same as one: the time between two
renewals is the least number of seconds that half the lease itself is within
(`half_le_iff`).  That is so even of a lease that is too long for any number of seconds,
for the largest number is odd: what the lease loses when it is cut to it, the second
rounding gives back.

The numbers are computed in words of 64 bits, one operation after the other.  All but one
of the operations have a result that fits, and that one stops at the largest number
(`secondsInWords?_eq`, `intervalInWords?_eq`, `wholeInWords?_eq`).
-/

namespace Leasehold

/-- A span is not longer than a number of seconds, however many they are. -/
def Duration.Within (d : Duration) (n : Nat) : Prop := d.nanos ≤ n * 1000000000

namespace Lock

open Duration

variable {d d' t : Duration} {n k : Nat}

/-! ## Least numbers of seconds -/

theorem isLeast_of_le_iff {p : Nat → Prop} {m : Nat} (h : ∀ n, m ≤ n ↔ p n) :
    IsLeast {n | p n} m :=
  ⟨(h m).mp (Nat.le_refl m), fun n hn => (h n).mpr hn⟩

/-- A lease that is within a number of seconds is not cut. -/
theorem leaseSeconds_eq (hn : n ≤ maxSeconds) (h : d.Within n) :
    leaseSeconds d = d.secondsCeil :=
  Nat.min_eq_left (Nat.le_trans (secondsCeil_le_iff.mpr h) hn)

/-- A lease takes the least number of seconds that it is within. -/
theorem isLeast_leaseSeconds (hn : n ≤ maxSeconds) (h : d.Within n) :
    IsLeast {n | d.Within n} (leaseSeconds d) := by
  rw [leaseSeconds_eq hn h]
  exact isLeast_of_le_iff fun k => secondsCeil_le_iff

/-- A lease that is within no number of seconds takes the largest. -/
theorem leaseSeconds_eq_maxSeconds (h : ∀ n ≤ maxSeconds, ¬ d.Within n) :
    leaseSeconds d = maxSeconds := by
  have hlong : ¬ d.secondsCeil ≤ maxSeconds := fun hle =>
    h maxSeconds (Nat.le_refl _) (secondsCeil_le_iff.mp hle)
  exact Nat.min_eq_right (Nat.le_of_not_le hlong)

theorem secondsCeil_le_succ (d : Duration) : d.secondsCeil ≤ maxSeconds + 1 := by
  have hlt := d.nanos_lt
  rw [secondsCeil_le_iff, maxSeconds]
  omega

/-- Half of the seconds of a lease, rounded up, are not less than half of the lease, and no
more than needed for that. -/
theorem half_le_iff : (leaseSeconds d + 1) / 2 ≤ k ↔ d.Within (2 * k) := by
  have hceil := secondsCeil_le_succ d
  -- No even number lies between the largest number of seconds and its successor.
  have hcut : leaseSeconds d ≤ 2 * k ↔ d.secondsCeil ≤ 2 * k := by
    simp only [leaseSeconds, maxSeconds] at hceil ⊢
    omega
  rw [Within, ← secondsCeil_le_iff, ← hcut]
  omega

theorem isLeast_half (d : Duration) : IsLeast {k | d.Within (2 * k)} ((leaseSeconds d + 1) / 2) :=
  isLeast_of_le_iff fun _ => half_le_iff

/-! ## In words -/

/-- The whole seconds of a lease.  The sum stops at the largest number. -/
def secondsInWords? (lease : Duration) : Option Nat := do
  let seconds ← word? lease.seconds
  if 0 < lease.subsecond then some ((word? (seconds + 1)).getD maxSeconds) else some seconds

/-- Half of a number, rounded up. -/
def halfInWords? (n : Nat) : Option Nat := do
  let half ← word? (n / 2)
  if 0 < n % 2 then word? (half + 1) else some half

/-- The time between two renewals of a lease. -/
def intervalInWords? (lease : Duration) : Option Duration := do
  let seconds ← secondsInWords? lease
  let half ← halfInWords? seconds
  ofNanos? (half * 1000000000)

/-- The lease as a store keeps it, or none if it is too short. -/
def wholeInWords? (lease : Duration) : Option (Option Duration) := do
  if lease < .ofSeconds 1 then return none
  let seconds ← secondsInWords? lease
  let whole ← ofNanos? (seconds * 1000000000)
  return some whole

theorem word?_of_le (h : n ≤ maxSeconds) : word? n = some n := word?_of_lt (Nat.lt_succ_of_le h)

/-- What does not fit a word stops at the largest number. -/
theorem word?_getD (n : Nat) : (word? n).getD maxSeconds = min n maxSeconds := by
  by_cases h : n ≤ maxSeconds
  · rw [word?_of_le h, Option.getD_some, Nat.min_eq_left h]
  · have hover : ¬ n < 18446744073709551616 := mt Nat.le_of_lt_succ h
    rw [word?, if_neg hover, Option.getD_none, Nat.min_eq_right (Nat.le_of_not_le h)]

theorem secondsInWords?_eq (d : Duration) : secondsInWords? d = some (leaseSeconds d) := by
  have hle : d.seconds ≤ maxSeconds := Nat.le_of_lt_succ d.seconds_lt
  rw [secondsInWords?, word?_of_le hle, Option.bind_eq_bind, Option.bind_some, leaseSeconds]
  split
  next hrest =>
    have hceil : d.secondsCeil = d.seconds + 1 := by
      simp only [subsecond, secondsCeil, seconds] at hrest ⊢
      omega
    rw [hceil, word?_getD]
  next hrest =>
    have hceil : d.secondsCeil = d.seconds := by
      simp only [subsecond, secondsCeil, seconds] at hrest ⊢
      omega
    rw [hceil, Nat.min_eq_left hle]

theorem halfInWords?_eq (h : n ≤ maxSeconds) : halfInWords? n = some ((n + 1) / 2) := by
  have hhalf : n / 2 ≤ maxSeconds := Nat.le_trans (Nat.div_le_self n 2) h
  rw [halfInWords?, word?_of_le hhalf, Option.bind_eq_bind, Option.bind_some]
  split
  next hodd =>
    have hceil : n / 2 + 1 = (n + 1) / 2 := by omega
    rw [hceil, word?_of_le (by omega)]
  next heven =>
    have hceil : n / 2 = (n + 1) / 2 := by omega
    rw [hceil]

theorem ofNanos?_seconds (h : n ≤ maxSeconds) :
    ofNanos? (n * 1000000000) = some (.ofSeconds n) := by
  rw [maxSeconds] at h
  have hlt : n * 1000000000 < 18446744073709551616000000000 := by omega
  rw [ofSeconds, ofNanos, ofNanos?, dif_pos hlt, Option.getD_some]

theorem intervalInWords?_eq (d : Duration) : intervalInWords? d = some (renewalInterval d) := by
  have hle := leaseSeconds_le d
  have hhalf : (leaseSeconds d + 1) / 2 ≤ maxSeconds := by omega
  rw [intervalInWords?, secondsInWords?_eq, Option.bind_eq_bind, Option.bind_some,
    halfInWords?_eq hle, Option.bind_some, ofNanos?_seconds hhalf, renewalInterval]

theorem isLease_iff : IsLease d ↔ .ofSeconds 1 ≤ d := by
  show 1 ≤ d.nanos / 1000000000 ↔ (ofSeconds 1).nanos ≤ d.nanos
  rw [nanos_ofSeconds (by decide)]
  omega

theorem wholeInWords?_eq (d : Duration) : wholeInWords? d = some (wholeSeconds? d) := by
  have hshort : d < .ofSeconds 1 ↔ ¬ IsLease d := by
    rw [isLease_iff]
    exact Nat.not_le.symm
  rw [wholeInWords?, secondsInWords?_eq, wholeSeconds?]
  split
  next hlease => rw [if_neg (hshort.mp hlease)]; rfl
  next hlease =>
    rw [if_pos (Decidable.of_not_not (mt hshort.mpr hlease)), Option.bind_eq_bind, Option.bind_some,
      ofNanos?_seconds (leaseSeconds_le d)]
    rfl

/-! ## The main theorem -/

/-- What is written for a lease of at least a second. -/
theorem exists_isWritten (h : .ofSeconds 1 ≤ d) :
    ∃ t, wholeSeconds? d = some t ∧ IsWritten t (renewalInterval t) (leaseSeconds d) := by
  have haccepted : wholeSeconds? d = some (.ofSeconds (leaseSeconds d)) :=
    if_pos (isLease_iff.mpr h)
  exact ⟨_, haccepted, isWritten_of_wholeSeconds? haccepted⟩

/-- **Lease arithmetic**, of every lease up to the longest.

* A lease takes the least number of seconds that it is within, and the largest number of all
  if it is within none.  Longer leases do not take less, and whole seconds take what they are.
* A lease of at least a second is accepted as `t`, which is as long as the seconds it takes.
  The time between two renewals is the same for both, and it is a whole number `i` of seconds,
  between one second and `t`.  Two of them are not shorter than `t`, and longer by a second at
  most.  The number `i` is the least that half the lease is within, and half of `t` as well.
* Computed in words, step by step, these are the results, so no step goes beyond a word. -/
theorem lease_arithmetic (d : Duration) :
    (∀ n ≤ maxSeconds, d.Within n → IsLeast {n | d.Within n} (leaseSeconds d)) ∧
    ((∀ n ≤ maxSeconds, ¬ d.Within n) → leaseSeconds d = maxSeconds) ∧
    (∀ d', d ≤ d' → leaseSeconds d ≤ leaseSeconds d') ∧
    (∀ n ≤ maxSeconds, leaseSeconds (.ofSeconds n) = n) ∧
    (.ofSeconds 1 ≤ d → ∃ t i, wholeSeconds? d = some t ∧
      t.nanos = leaseSeconds d * 1000000000 ∧ renewalInterval t = renewalInterval d ∧
      (renewalInterval d).nanos = i * 1000000000 ∧ 1 ≤ i ∧
      i * 1000000000 ≤ t.nanos ∧ t.nanos ≤ 2 * (i * 1000000000) ∧
      2 * (i * 1000000000) ≤ t.nanos + 1000000000 ∧
      IsLeast {k | d.Within (2 * k)} i ∧ IsLeast {k | t.Within (2 * k)} i) ∧
    secondsInWords? d = some (leaseSeconds d) ∧ wholeInWords? d = some (wholeSeconds? d) ∧
    intervalInWords? d = some (renewalInterval d) := by
  refine ⟨fun n => isLeast_leaseSeconds, leaseSeconds_eq_maxSeconds, fun d' => leaseSeconds_mono,
    fun n => leaseSeconds_ofSeconds, fun h => ?_, secondsInWords?_eq d, wholeInWords?_eq d,
    intervalInWords?_eq d⟩
  obtain ⟨t, haccepted, hwritten⟩ := exists_isWritten h
  have hseconds : leaseSeconds t = leaseSeconds d := by
    rw [hwritten.duration, leaseSeconds_ofSeconds hwritten.le]
  have hinterval : renewalInterval t = renewalInterval d := by
    rw [renewalInterval, hseconds, renewalInterval]
  have hnanos := hwritten.nanos_duration
  have hpos := hwritten.pos
  refine ⟨t, (leaseSeconds d + 1) / 2, haccepted, hnanos, hinterval,
    hinterval ▸ hwritten.nanos_interval, ?_, ?_, ?_, ?_, isLeast_half d, hseconds ▸ isLeast_half t⟩
  all_goals omega

/-- A second and a half. -/
def fractional : Duration := { nanos := 1500000000 }

theorem lease_arithmetic_longest :
    (fractional.Within 2 ∧ (∀ n ≤ maxSeconds, ¬ longest.Within n) ∧ fractional ≤ longest ∧
      .ofSeconds 1 ≤ fractional ∧ .ofSeconds 1 ≤ longest) ∧
    IsLeast {n | fractional.Within n} (leaseSeconds fractional) ∧
    leaseSeconds fractional ≤ leaseSeconds longest ∧ leaseSeconds longest = maxSeconds ∧
    leaseSeconds (.ofSeconds 7) = 7 ∧
    (∃ t, wholeSeconds? fractional = some t ∧ t.nanos = 2000000000 ∧
      (renewalInterval t).nanos = 1000000000) ∧
    ∃ t, wholeSeconds? longest = some t ∧ t.nanos = maxSeconds * 1000000000 ∧
      (renewalInterval t).nanos = 9223372036854775808 * 1000000000 := by
  have hwithin : fractional.Within 2 := show 1500000000 ≤ 2 * 1000000000 by decide
  have hnone : ∀ n ≤ maxSeconds, ¬ longest.Within n := by
    intro n hn
    simp only [Within, longest, maxSeconds] at hn ⊢
    omega
  have hle : fractional ≤ longest := by decide
  have hfractional : .ofSeconds 1 ≤ fractional := by decide
  have hlongest : .ofSeconds 1 ≤ longest := by decide
  obtain ⟨hleast, -, hmono, hwhole, hhalf, -⟩ := lease_arithmetic fractional
  obtain ⟨-, hmost, -, -, hhalf', -⟩ := lease_arithmetic longest
  obtain ⟨t, i, haccepted, hnanos, hinterval, hi, -, -, hcover, htight, -⟩ := hhalf hfractional
  obtain ⟨t', i', haccepted', hnanos', hinterval', hi', -, -, hcover', htight', -⟩ :=
    hhalf' hlongest
  have htwo : leaseSeconds fractional = 2 := by decide
  have hlargest := hmost hnone
  refine ⟨⟨hwithin, hnone, hle, hfractional, hlongest⟩, hleast 2 (by decide) hwithin,
    hmono _ hle, hlargest, hwhole 7 (by decide), ⟨t, haccepted, ?_, ?_⟩, t', haccepted', ?_, ?_⟩
  · rw [hnanos, htwo]
  · rw [hinterval, hi]
    omega
  · rw [hnanos', hlargest]
  · rw [hinterval', hi']
    rw [hlargest, maxSeconds] at hnanos'
    omega

end Lock

end Leasehold
