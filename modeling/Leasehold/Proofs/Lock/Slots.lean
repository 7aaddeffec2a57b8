import Leasehold.Proofs.Lock.Seekers

/-!
# The slots of a renewal

The time after an acquisition is divided into slots as long as the renewal interval, and
a renewal has a tick at the start of each slot but the first.  A refresh may take longer
than a slot.  The renewal then makes up for one tick as soon as the refresh is over, and
waits for the tick of the slot after that (`Renewing.Paced`).

So no two refreshes start in the same slot, none comes before its tick, and as long as
every refresh takes less than a slot all of them come at their ticks
(`Renewing.Paced.spaced`).
-/

namespace Leasehold.Lock

/-! ## The tick after a tick -/

section

variable {tick now t : Instant} {interval : Duration}

theorem nextTick?_eq_some_iff : nextTick? tick now interval = some t ↔
    t.nanos = tick.nanos + ((now.nanos - tick.nanos) / interval.nanos + 1) * interval.nanos := by
  have hlimit := t.nanos_lt
  generalize hpassed : ((now.nanos - tick.nanos) / interval.nanos + 1) * interval.nanos = passed
  simp only [nextTick?, hpassed, Option.bind_eq_some_iff]
  constructor
  · rintro ⟨d, hd, ht⟩
    unfold Duration.ofNanos? at hd
    split at hd
    next => cases hd; exact Instant.nanos_of_after?_eq_some ht
    next => cases hd
  · intro ht
    have hlt : passed < 18446744073709551616000000000 := by omega
    refine ⟨⟨passed, hlt⟩, dif_pos hlt, ?_⟩
    obtain ⟨nanos, hnanos⟩ := t
    subst ht
    exact Instant.after?_of_lt hnanos

/-- A tick that is at most five milliseconds late does not delay the next one, and after
any other the next one is the first multiple of the interval to come. -/
theorem nextTick?_eq_some_iff_late (hle : tick ≤ now) (hinterval : .ofSeconds 1 ≤ interval) :
    nextTick? tick now interval = some t ↔
      t.nanos = if now.nanos ≤ tick.nanos + 5000000 then tick.nanos + interval.nanos
        else now.nanos + interval.nanos - (now.nanos - tick.nanos) % interval.nanos := by
  have hle : tick.nanos ≤ now.nanos := hle
  have hsecond : 1000000000 ≤ interval.nanos := hinterval
  rw [nextTick?_eq_some_iff]
  split
  next hsoon =>
    rw [Nat.div_eq_of_lt (by omega), Nat.zero_add, Nat.one_mul]
  next =>
    have hdivmod := Nat.div_add_mod (now.nanos - tick.nanos) interval.nanos
    have hmod := Nat.mod_lt (now.nanos - tick.nanos) (Nat.lt_of_lt_of_le (by decide) hsecond)
    rw [Nat.add_mul, Nat.one_mul, Nat.mul_comm]
    omega

end

namespace Renewing

/-! ## Slots -/

/-- When the slot with the given number starts. -/
def tick (r : Renewing) (n : Nat) : Nat := r.acquiredAt.nanos + n * r.interval.nanos

/-- The number of the slot that a point in time is in. -/
def slot (r : Renewing) (nanos : Nat) : Nat := (nanos - r.acquiredAt.nanos) / r.interval.nanos

/-- A refresh that is over: when it began, when it was answered, and how. -/
structure Round where
  /-- When the refresh began. -/
  start : Nat
  /-- When it was answered. -/
  finish : Nat
  /-- The answer. -/
  answer : Answer

/-- What a renewal asks of the store. -/
def request (r : Renewing) : Request := .refresh r.key r.interval

/-- What is written down of some refreshes. -/
def calls (r : Renewing) (xs : List Round) : List (Nat × Act) :=
  xs.flatMap fun x => [(x.start, .asks r.request), (x.finish, .hears x.answer)]

/-- Since when no refresh is under way. -/
def rested (r : Renewing) (xs : List Round) : Nat :=
  xs.getLast?.elim r.acquiredAt.nanos Round.finish

/-- The slot whose tick comes after some refreshes. -/
def next (r : Renewing) (xs : List Round) : Nat :=
  xs.getLast?.elim 1 fun x => r.slot x.start + 1

/-- When the refresh after some others starts: at the tick, or as soon as the last one is
over. -/
def opens (r : Renewing) (xs : List Round) : Nat := max (r.rested xs) (r.tick (r.next xs))

/-- When the refresh with a number starts, if each takes as long as given. -/
def start (r : Renewing) (latency : Nat → Duration) : Nat → Nat
  | 0 => r.tick 1
  | k + 1 =>
      max (r.start latency k + (latency k).nanos) (r.tick (r.slot (r.start latency k) + 1))

/-- When the first refreshes start and are over, if each takes as long as given. -/
def times (r : Renewing) (latency : Nat → Duration) (n : Nat) : List (Nat × Nat) :=
  (List.range n).map fun k => (r.start latency k, r.start latency k + (latency k).nanos)

/-- Refreshes that a renewal makes one after the other. -/
inductive Paced (r : Renewing) : List Round → Prop where
  | nil : Paced r []
  | concat {xs x} :
      Paced r xs → x.start = r.opens xs → x.start ≤ x.finish → Paced r (xs ++ [x])

/-- What is promised of the refreshes of a renewal. -/
structure Spaced (r : Renewing) (xs : List Round) : Prop where
  /-- They come one after the other, and there is a tick between any two starts, so no two
  are in the same slot. -/
  ordered : xs.Pairwise fun x y =>
    x.finish ≤ y.start ∧ ∃ m, x.start < r.tick m ∧ r.tick m ≤ y.start
  /-- None starts before the tick of its number. -/
  due : ∀ before x after, xs = before ++ x :: after → r.tick (before.length + 1) ≤ x.start
  /-- A refresh starts at that tick if all before it took less than an interval. -/
  punctual : ∀ before x after, xs = before ++ x :: after →
    (∀ y ∈ before, y.finish - y.start < r.interval.nanos) → x.start = r.tick (before.length + 1)

variable {r : Renewing} {xs zs : List Round} {x y : Round} {n nanos : Nat}

theorem calls_concat (r : Renewing) (xs : List Round) (x : Round) : r.calls (xs ++ [x]) =
    r.calls xs ++ [(x.start, .asks r.request), (x.finish, .hears x.answer)] := by
  rw [calls, List.flatMap_append, List.flatMap_singleton]
  rfl

@[simp] theorem rested_concat (r : Renewing) (xs : List Round) (x : Round) :
    r.rested (xs ++ [x]) = x.finish := by
  rw [rested, List.getLast?_concat, Option.elim_some]

@[simp] theorem next_concat (r : Renewing) (xs : List Round) (x : Round) :
    r.next (xs ++ [x]) = r.slot x.start + 1 := by
  rw [next, List.getLast?_concat, Option.elim_some]

theorem tick_succ (r : Renewing) (n : Nat) : r.tick (n + 1) = r.tick n + r.interval.nanos := by
  rw [tick, tick, Nat.succ_mul, Nat.add_assoc]

theorem tick_mono {m : Nat} (h : m ≤ n) : r.tick m ≤ r.tick n :=
  Nat.add_le_add_left (Nat.mul_le_mul_right _ h) _

theorem times_succ (r : Renewing) (latency : Nat → Duration) (n : Nat) :
    r.times latency (n + 1) = r.times latency n ++
      [(r.start latency n, r.start latency n + (latency n).nanos)] := by
  rw [times, times, List.range_succ, List.map_append, List.map_singleton]

/-- The times of refreshes are determined by how long each takes. -/
theorem opens_eq_start {latency : Nat → Duration}
    (h : xs.map (fun x => (x.start, x.finish)) = r.times latency n) :
    r.opens xs = r.start latency n := by
  cases n with
  | zero =>
    obtain rfl : xs = [] := List.map_eq_nil_iff.mp h
    exact Nat.max_eq_right (Nat.le_add_right _ _)
  | succ n =>
    rcases List.eq_nil_or_concat' xs with rfl | ⟨xs, x, rfl⟩
    · rw [times_succ] at h
      exact absurd h.symm (List.append_ne_nil_of_right_ne_nil _ (List.cons_ne_nil _ _))
    rw [times_succ, List.map_append, List.map_singleton] at h
    obtain ⟨-, hx⟩ := List.append_inj' h rfl
    obtain ⟨hstart, hfinish⟩ := Prod.mk.inj (List.singleton_inj.mp hx)
    rw [opens, rested_concat, next_concat, hstart, hfinish]
    rfl

section

variable (hinterval : 0 < r.interval.nanos)

include hinterval

theorem le_slot (h : r.tick n ≤ nanos) : n ≤ r.slot nanos := by
  rw [slot, Nat.le_div_iff_mul_le hinterval]
  unfold tick at h
  omega

theorem slot_tick (n : Nat) : r.slot (r.tick n) = n := by
  rw [slot, tick, Nat.add_sub_cancel_left, Nat.mul_div_cancel _ hinterval]

theorem lt_tick_slot (nanos : Nat) : nanos < r.tick (r.slot nanos + 1) := by
  have hlt := Nat.lt_div_mul_add hinterval (a := nanos - r.acquiredAt.nanos)
  rw [tick_succ, tick, slot]
  omega

/-! ## What follows from the pace -/

theorem Paced.lt_next (h : r.Paced xs) : xs.length < r.next xs := by
  induction h with
  | nil => exact Nat.one_pos
  | @concat xs x _ hstart _ ih =>
    have hslot : r.next xs ≤ r.slot x.start :=
      le_slot hinterval (hstart ▸ Nat.le_max_right _ _)
    rw [List.length_append, List.length_singleton, next_concat]
    omega

theorem Paced.start_lt (h : r.Paced xs) : ∀ y ∈ xs, y.start < r.tick (r.next xs) := by
  induction h with
  | nil => exact nofun
  | @concat xs x _ hstart _ ih =>
    have htick : r.tick (r.next xs) ≤ x.start := hstart ▸ Nat.le_max_right _ _
    have hnext : x.start < r.tick (r.slot x.start + 1) := lt_tick_slot hinterval x.start
    intro y hy
    rw [next_concat]
    rcases List.mem_append.mp hy with hy | hy
    · exact Nat.lt_trans (Nat.lt_of_lt_of_le (ih y hy) htick) hnext
    · rwa [List.mem_singleton.mp hy]

omit hinterval in
theorem Paced.finish_le (h : r.Paced xs) : ∀ y ∈ xs, y.finish ≤ r.rested xs := by
  induction h with
  | nil => exact nofun
  | @concat xs x _ hstart hfinish ih =>
    have hrested : r.rested xs ≤ x.start := hstart ▸ Nat.le_max_left _ _
    intro y hy
    rw [rested_concat]
    rcases List.mem_append.mp hy with hy | hy
    · exact Nat.le_trans (ih y hy) (Nat.le_trans hrested hfinish)
    · rw [List.mem_singleton.mp hy]

/-- If no refresh took as long as an interval, the next one starts at its tick. -/
theorem Paced.opens_eq (h : r.Paced xs)
    (hquick : ∀ y ∈ xs, y.finish - y.start < r.interval.nanos) :
    r.opens xs = r.tick (xs.length + 1) := by
  induction h with
  | nil => exact Nat.max_eq_right (Nat.le_add_right _ _)
  | @concat xs x _ hstart _ ih =>
    have htick : x.start = r.tick (xs.length + 1) :=
      hstart.trans (ih fun y hy => hquick y (List.mem_append_left _ hy))
    have hlast := hquick x (List.mem_append_right _ (List.mem_singleton_self x))
    rw [opens, rested_concat, next_concat, List.length_append, List.length_singleton, htick,
      slot_tick hinterval]
    refine Nat.max_eq_right ?_
    rw [tick_succ, ← htick]
    omega

omit hinterval in
theorem Paced.opens_of_eq (h : r.Paced zs) :
    ∀ {xs ys}, zs = xs ++ x :: ys → r.Paced xs ∧ x.start = r.opens xs := by
  induction h with
  | nil =>
    intro xs ys heq
    exact absurd heq.symm (List.append_ne_nil_of_right_ne_nil _ (List.cons_ne_nil _ _))
  | @concat zs z hpaced hstart _ ih =>
    intro xs ys heq
    rcases List.eq_nil_or_concat' ys with rfl | ⟨ys, y, rfl⟩
    · obtain ⟨rfl, hx⟩ := List.append_inj' heq rfl
      cases hx
      exact ⟨hpaced, hstart⟩
    · rw [← List.cons_append, ← List.append_assoc] at heq
      exact ih (List.append_inj' heq rfl).1

theorem Paced.ordered (h : r.Paced xs) : xs.Pairwise fun x y =>
    x.finish ≤ y.start ∧ ∃ m, x.start < r.tick m ∧ r.tick m ≤ y.start := by
  induction h with
  | nil => exact .nil
  | @concat xs x hpaced hstart _ ih =>
    have hrested : r.rested xs ≤ x.start := hstart ▸ Nat.le_max_left _ _
    have htick : r.tick (r.next xs) ≤ x.start := hstart ▸ Nat.le_max_right _ _
    refine List.pairwise_append.mpr ⟨ih, List.pairwise_singleton _ _, fun y hy z hz => ?_⟩
    rw [List.mem_singleton.mp hz]
    exact ⟨Nat.le_trans (hpaced.finish_le y hy) hrested,
      r.next xs, hpaced.start_lt hinterval y hy, htick⟩

/-- The refreshes of a renewal keep to their slots. -/
theorem Paced.spaced (h : r.Paced xs) : r.Spaced xs := by
  refine ⟨h.ordered hinterval, fun before x after heq => ?_, fun before x after heq hquick => ?_⟩
  · obtain ⟨hpaced, hstart⟩ := h.opens_of_eq heq
    rw [hstart]
    exact Nat.le_trans (tick_mono (hpaced.lt_next hinterval)) (Nat.le_max_right _ _)
  · obtain ⟨hpaced, hstart⟩ := h.opens_of_eq heq
    rw [hstart]
    exact hpaced.opens_eq hinterval hquick

end

end Renewing

end Leasehold.Lock
