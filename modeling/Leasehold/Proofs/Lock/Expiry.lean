/-!
# When a renewed entry expires

An entry is written for a duration and refreshed at the multiples of an
interval, counted from the moment it was written.  A refresh may fail, and it
may take effect some time after its tick.  If the entry is still live then, it
lives for another interval; else nothing brings it back.  `expiry` follows the
deadline through the refreshes, with all times counted from the beginning.

If two intervals cover the duration and no refresh takes longer than an
interval, deadlines never go back (`expiry_mono`), and once a refresh comes too
late all later ones do (`expiry_eq_of_lt`).  So up to the next refresh the
deadline after the last one tells whether the entry is live (`le_expiry_iff`).
-/

namespace Leasehold.Lock

/-- When the refresh of a number takes effect. -/
def landing (interval : Nat) (delay : Nat → Nat) (n : Nat) : Nat := n * interval + delay n

/-- The deadline after the given number of refreshes. -/
def expiry (duration interval : Nat) (delay : Nat → Nat) (fails : Nat → Bool) : Nat → Nat
  | 0 => duration
  | n + 1 =>
      if fails (n + 1) = false ∧
          landing interval delay (n + 1) ≤ expiry duration interval delay fails n then
        landing interval delay (n + 1) + interval
      else expiry duration interval delay fails n

/-- A refresh moves the deadline if it does not fail and is not too late. -/
theorem expiry_succ_cases (duration interval : Nat) (delay : Nat → Nat) (fails : Nat → Bool)
    (n : Nat) :
    (expiry duration interval delay fails (n + 1) = landing interval delay (n + 1) + interval ∧
      fails (n + 1) = false ∧
        landing interval delay (n + 1) ≤ expiry duration interval delay fails n) ∨
    (expiry duration interval delay fails (n + 1) = expiry duration interval delay fails n ∧
      ¬ (fails (n + 1) = false ∧
        landing interval delay (n + 1) ≤ expiry duration interval delay fails n)) := by
  by_cases h : fails (n + 1) = false ∧
      landing interval delay (n + 1) ≤ expiry duration interval delay fails n
  · exact .inl ⟨by rw [expiry, if_pos h], h⟩
  · exact .inr ⟨by rw [expiry, if_neg h], h⟩

variable {duration interval : Nat} {delay : Nat → Nat} {fails : Nat → Bool} {last m n x : Nat}

/-- A later refresh takes effect later. -/
theorem landing_le (hdelay : ∀ n, 1 ≤ n → n ≤ last → delay n ≤ interval) (hm : 1 ≤ m) (hmn : m ≤ n)
    (hn : n ≤ last) : landing interval delay m ≤ landing interval delay n := by
  obtain rfl | hlt := Nat.eq_or_lt_of_le hmn
  · exact Nat.le_refl _
  · have hd := hdelay m hm (Nat.le_trans hmn hn)
    have hsucc : (m + 1) * interval ≤ n * interval := Nat.mul_le_mul_right interval hlt
    simp only [landing]
    rw [Nat.succ_mul] at hsucc
    omega

/-- A deadline is at most two intervals after the tick of the last refresh. -/
theorem expiry_le (fails : Nat → Bool) (hduration : duration ≤ interval + interval)
    (hdelay : ∀ n, 1 ≤ n → n ≤ last → delay n ≤ interval) (hn : n ≤ last) :
    expiry duration interval delay fails n ≤ (n + 2) * interval := by
  induction n with
  | zero =>
    simp only [expiry]
    omega
  | succ n ih =>
    have hd := hdelay (n + 1) (Nat.le_add_left 1 n) hn
    have hprevious := ih (Nat.le_of_succ_le hn)
    have hstep : (n + 1 + 2) * interval = (n + 1) * interval + interval + interval := by
      rw [Nat.succ_mul, Nat.succ_mul]
    have hstep' : (n + 2) * interval = (n + 1) * interval + interval := Nat.succ_mul _ _
    obtain ⟨heq, -, -⟩ | ⟨heq, -⟩ := expiry_succ_cases duration interval delay fails n
    · simp only [landing] at heq
      omega
    · omega

/-- Deadlines never go back. -/
theorem expiry_mono (fails : Nat → Bool) (hduration : duration ≤ interval + interval)
    (hdelay : ∀ n, 1 ≤ n → n ≤ last → delay n ≤ interval) (hmn : m ≤ n) (hn : n ≤ last) :
    expiry duration interval delay fails m ≤ expiry duration interval delay fails n := by
  induction n with
  | zero =>
    obtain rfl := Nat.le_zero.mp hmn
    exact Nat.le_refl _
  | succ n ih =>
    obtain rfl | hlt := Nat.eq_or_lt_of_le hmn
    · exact Nat.le_refl _
    · have hle := expiry_le fails hduration hdelay (Nat.le_of_succ_le hn)
      have hprevious := ih (Nat.le_of_lt_succ hlt) (Nat.le_of_succ_le hn)
      have hstep : (n + 2) * interval = (n + 1) * interval + interval := Nat.succ_mul _ _
      refine Nat.le_trans hprevious ?_
      obtain ⟨heq, -, -⟩ | ⟨heq, -⟩ := expiry_succ_cases duration interval delay fails n
      · simp only [landing] at heq
        omega
      · omega

/-- Once a refresh takes effect too late, the deadline stays. -/
theorem expiry_eq_of_lt (hdelay : ∀ n, 1 ≤ n → n ≤ last → delay n ≤ interval) (hmn : m ≤ n)
    (hn : n ≤ last)
    (hlate : expiry duration interval delay fails m < landing interval delay (m + 1)) :
    expiry duration interval delay fails n = expiry duration interval delay fails m := by
  induction n with
  | zero =>
    obtain rfl := Nat.le_zero.mp hmn
    rfl
  | succ n ih =>
    obtain rfl | hlt := Nat.eq_or_lt_of_le hmn
    · rfl
    · have hsame := ih (Nat.le_of_lt_succ hlt) (Nat.le_of_succ_le hn)
      have hlanding : landing interval delay (m + 1) ≤ landing interval delay (n + 1) :=
        landing_le hdelay (Nat.le_add_left 1 m) hlt hn
      rw [expiry, if_neg, hsame]
      rintro ⟨-, hle⟩
      rw [hsame] at hle
      omega

/-- Whether an instant before the next refresh takes effect is up to the deadline
can be told from the deadline after the last refresh. -/
theorem le_expiry_iff (hduration : duration ≤ interval + interval)
    (hdelay : ∀ n, 1 ≤ n → n ≤ last → delay n ≤ interval) (hn : n ≤ last)
    (hx : n = last ∨ x ≤ landing interval delay (n + 1)) :
    x ≤ expiry duration interval delay fails n ↔ x ≤ expiry duration interval delay fails last := by
  constructor
  · exact fun hle => Nat.le_trans hle (expiry_mono fails hduration hdelay hn (Nat.le_refl _))
  · intro hle
    obtain rfl | hbefore := hx
    · exact hle
    · refine Nat.le_of_not_lt fun hlt => ?_
      have hlate := Nat.lt_of_lt_of_le hlt hbefore
      rw [expiry_eq_of_lt hdelay hn (Nat.le_refl _) hlate] at hle
      omega

/-! ## Refreshes that never fail -/

/-- Refreshes that take no time and never fail renew the entry up to an interval
after the last one. -/
theorem expiry_of_prompt (hinterval : interval ≤ duration)
    (hduration : duration ≤ interval + interval) :
    expiry duration interval (fun _ => 0) (fun _ => false) n =
      max duration ((n + 1) * interval) := by
  induction n with
  | zero =>
    simp only [expiry]
    omega
  | succ n ih =>
    have hstep : (n + 1 + 1) * interval = (n + 1) * interval + interval := Nat.succ_mul _ _
    have hle : interval ≤ (n + 1) * interval := Nat.le_mul_of_pos_left _ (Nat.succ_pos n)
    simp only [expiry, ih, landing, true_and, Nat.add_zero]
    rw [if_pos (Nat.le_max_right _ _)]
    omega

/-- Each refresh is no slower than the one before, up to the last but one. -/
def Steady (delay : Nat → Nat) (last : Nat) : Prop :=
  ∀ n, 1 ≤ n → n + 1 < last → delay (n + 1) ≤ delay n

/-- Steady refreshes renew the entry each time. -/
theorem Steady.expiry_eq (h : Steady delay last) (hfirst : landing interval delay 1 ≤ duration)
    (hn : n + 1 < last) :
    expiry duration interval delay (fun _ => false) (n + 1) =
      landing interval delay (n + 1) + interval := by
  induction n with
  | zero =>
    simp only [expiry, true_and]
    exact if_pos hfirst
  | succ n ih =>
    have hprevious := ih (Nat.lt_of_succ_lt hn)
    have hd := h (n + 1) (Nat.le_add_left 1 n) hn
    have hstep : (n + 1 + 1) * interval = (n + 1) * interval + interval := Nat.succ_mul _ _
    rw [expiry, if_pos]
    refine ⟨rfl, ?_⟩
    rw [hprevious]
    simp only [landing]
    omega

/-- Steady refreshes hold the entry up to the last tick. -/
theorem Steady.le_expiry (h : Steady delay last) (hinterval : interval ≤ duration)
    (hduration : duration ≤ interval + interval)
    (hdelay : ∀ n, 1 ≤ n → n ≤ last → delay n ≤ interval)
    (hfirst : landing interval delay 1 ≤ duration) (hlast : 1 ≤ last) :
    last * interval ≤ expiry duration interval delay (fun _ => false) last := by
  match last with
  | 0 => omega
  | 1 =>
    have hle := expiry_mono (fun _ => false) hduration hdelay (Nat.zero_le 1) (Nat.le_refl 1)
    rw [expiry] at hle
    omega
  | last + 2 =>
    have heq := h.expiry_eq hfirst (Nat.lt_succ_self (last + 1))
    have hle : expiry duration interval delay (fun _ => false) (last + 1) ≤
        expiry duration interval delay (fun _ => false) (last + 2) :=
      expiry_mono _ hduration hdelay (Nat.le_succ _) (Nat.le_refl _)
    have hstep : (last + 2) * interval = (last + 1) * interval + interval := Nat.succ_mul _ _
    rw [heq, landing] at hle
    omega

/-- Refreshes that are not steady have a first one that is slower than the one
before. -/
theorem exists_slower (h : ¬ Steady delay last) :
    ∃ n, 1 ≤ n ∧ n + 1 < last ∧ delay n < delay (n + 1) ∧ Steady delay (n + 1) := by
  induction last with
  | zero => exact absurd (fun n _ hn => absurd hn (Nat.not_lt_zero _)) h
  | succ last ih =>
    by_cases hsteady : Steady delay last
    · -- The steady ones end with `last`, so the slower one comes right after.
      obtain ⟨n, hn⟩ := Classical.not_forall.mp h
      simp only [Classical.not_imp, Nat.not_le] at hn
      obtain ⟨hone, hlast, hslower⟩ := hn
      obtain hlt | heq := Nat.lt_or_eq_of_le (Nat.le_of_lt_succ hlast)
      · exact absurd (hsteady n hone hlt) (Nat.not_le.mpr hslower)
      · exact ⟨n, hone, hlast, hslower, heq ▸ hsteady⟩
    · obtain ⟨n, hone, hlast, hslower⟩ := ih hsteady
      exact ⟨n, hone, Nat.lt_succ_of_lt hlast, hslower⟩

/-- If a refresh, not the last, is slower than the one before, the entry expires
before the last tick. -/
theorem expiry_lt_of_not_steady (hdelay : ∀ n, 1 ≤ n → n ≤ last → delay n ≤ interval)
    (hfirst : landing interval delay 1 ≤ duration) (h : ¬ Steady delay last) :
    expiry duration interval delay (fun _ => false) last < last * interval := by
  obtain ⟨n, hone, hlast, hslower, hsteady⟩ := exists_slower h
  obtain ⟨n, rfl⟩ := Nat.exists_eq_add_of_le' hone
  have heq := hsteady.expiry_eq hfirst (Nat.lt_succ_self (n + 1))
  have hlate : expiry duration interval delay (fun _ => false) (n + 1) <
      landing interval delay (n + 1 + 1) := by
    have hstep : (n + 1 + 1) * interval = (n + 1) * interval + interval := Nat.succ_mul _ _
    rw [heq]
    simp only [landing]
    omega
  have hd := hdelay (n + 1 + 1) (Nat.le_add_left _ _) (Nat.le_of_lt hlast)
  have hticks : (n + 1 + 1 + 1) * interval ≤ last * interval := Nat.mul_le_mul_right interval hlast
  rw [expiry_eq_of_lt hdelay (Nat.le_of_succ_le (Nat.le_of_lt hlast)) (Nat.le_refl _) hlate]
  refine Nat.lt_of_lt_of_le hlate (Nat.le_trans ?_ hticks)
  rw [landing, Nat.succ_mul (n + 1 + 1)]
  omega

end Leasehold.Lock
