import Leasehold.Proofs.Simulation.Run
import Mathlib.Algebra.GroupWithZero.Nat

/-!
# Sums over the processes of a system

A `tally` adds up a measure of all processes that are not over.  A step changes
it by what the process of the step, and the processes that it starts, count
before and after (`tally_advance`).  A quantity that is spread over the world and
its processes is thus conserved by every step if it is conserved by the turn of
one process.
-/

namespace Leasehold.Simulation

variable {α σ π : Type}

/-- The measure of a process, or nothing for one that is over. -/
def measure? (f : π → Nat) (p? : Option π) : Nat := (p?.map f).getD 0

@[simp] theorem measure?_none (f : π → Nat) : measure? f none = 0 := rfl

@[simp] theorem measure?_some (f : π → Nat) (p : π) : measure? f (some p) = f p := rfl

namespace System

theorem exists_process?_of_mem_running {s : System σ π} {p : π} (h : p ∈ s.running) :
    ∃ i, s.process? i = some p := by
  obtain ⟨p?, hmem, rfl⟩ := List.mem_filterMap.mp h
  obtain ⟨i, hi⟩ := List.mem_iff_getElem?.mp hmem
  exact ⟨i, by rw [process?, hi]; rfl⟩

/-- The sum of a measure over the processes that are not over. -/
def tally (f : π → Nat) (s : System σ π) : Nat := (s.processes.map (measure? f)).sum

theorem sum_set (f : π → Nat) {l : List (Option π)} {i : Nat} {p : π} (h : l[i]? = some (some p))
    (next? : Option π) :
    ((l.set i next?).map (measure? f)).sum + f p = (l.map (measure? f)).sum + measure? f next? := by
  induction l generalizing i with
  | nil => cases h
  | cons q? l ih =>
    cases i with
    | zero =>
      cases h
      simp only [List.set_cons_zero, List.map_cons, List.sum_cons, measure?_some]
      omega
    | succ i =>
      have hrest := ih h
      simp only [List.set_cons_succ, List.map_cons, List.sum_cons]
      omega

/-- A turn changes a sum by the measures of the process before and after it, and
of those that it starts. -/
theorem tally_advance (f : π → Nat) {s : System σ π} {i : Nat} {p : π} (h : s.process? i = some p)
    (world : σ) (next? : Option π) (started : List π) :
    (s.advance i world next? started).tally f + f p =
      s.tally f + measure? f next? + (started.map f).sum := by
  rw [process?, Option.join_eq_some_iff] at h
  have hset := sum_set f h next?
  have hstarted : (started.map some).map (measure? f) = started.map f := by
    rw [List.map_map]
    rfl
  simp only [tally, advance, List.map_append, List.sum_append, hstarted]
  omega

theorem tally_add (f : π → Nat) (s : System σ π) (p : π) : (s.add p).tally f = s.tally f + f p := by
  simp [tally, add]

theorem tally_eq_sum_running (f : π → Nat) (s : System σ π) :
    s.tally f = (s.running.map f).sum := by
  rw [tally, running]
  induction s.processes with
  | nil => rfl
  | cons p? l ih => cases p? <;> simp [ih]

theorem tally_of_running_eq_nil (f : π → Nat) {s : System σ π} (h : s.running = []) :
    s.tally f = 0 := by
  rw [tally_eq_sum_running, h]
  rfl

/-- A measure that no process has adds up to nothing. -/
theorem tally_eq_zero {f : π → Nat} {s : System σ π} (h : ∀ p ∈ s.running, f p = 0) :
    s.tally f = 0 := by
  rw [tally_eq_sum_running, List.sum_eq_zero_iff_forall_eq_nat]
  intro n hn
  obtain ⟨p, hp, rfl⟩ := List.mem_map.mp hn
  exact h p hp

theorem tally_le_add {f g h : π → Nat} {s : System σ π}
    (hle : ∀ p ∈ s.running, f p ≤ g p + h p) : s.tally f ≤ s.tally g + s.tally h := by
  rw [tally_eq_sum_running, tally_eq_sum_running, tally_eq_sum_running]
  revert hle
  induction s.running with
  | nil => exact fun _ => Nat.le_refl _
  | cons p l ih =>
    intro hle
    obtain ⟨hp, hrest⟩ := List.forall_mem_cons.mp hle
    have hsum := ih hrest
    simp only [List.map_cons, List.sum_cons]
    omega

theorem tally_mono {f g : π → Nat} {s : System σ π} (hle : ∀ p ∈ s.running, f p ≤ g p) :
    s.tally f ≤ s.tally g := by
  have hsum := tally_le_add (h := fun _ => 0) hle
  rwa [tally_eq_zero (f := fun _ => 0) fun _ _ => rfl] at hsum

/-- What the processes have together is counted process by process. -/
theorem count_flatMap_running [DecidableEq α] (f : π → List α) (a : α) (s : System σ π) :
    (s.running.flatMap f).count a = s.tally fun p => (f p).count a := by
  rw [tally_eq_sum_running, List.count_flatMap]
  rfl

theorem length_flatMap_running (f : π → List α) (s : System σ π) :
    (s.running.flatMap f).length = s.tally fun p => (f p).length := by
  rw [tally_eq_sum_running, List.length_flatMap]

/-- A process counts no more than all processes together. -/
theorem le_tally (f : π → Nat) {s : System σ π} {i : Nat} {p : π} (h : s.process? i = some p) :
    f p ≤ s.tally f := by
  have hover := tally_advance f h s.world none []
  simp only [measure?_none, List.map_nil, List.sum_nil] at hover
  omega

/-- Two processes count no more than all processes together. -/
theorem add_le_tally (f : π → Nat) {s : System σ π} {i j : Nat} {p q : π} (hne : j ≠ i)
    (hp : s.process? i = some p) (hq : s.process? j = some q) : f p + f q ≤ s.tally f := by
  have hover := tally_advance f hp s.world none []
  have hrest : (s.advance i s.world none []).process? j = some q := by
    rwa [process?_advance_of_ne (lt_length_of_process? hq) hne]
  have hle := le_tally f hrest
  simp only [measure?_none, List.map_nil, List.sum_nil] at hover
  omega

end System

end Leasehold.Simulation
