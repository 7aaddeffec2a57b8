import Leasehold.Proofs.Simulation.Tally

/-!
# Runs in which processes are abandoned

Whoever waits for a process may drop it between any two of its steps.  Nothing of it
runs then: the world stays as it is, and the place of the process is empty from there
on.  An `Abandoning` run is one in which this may happen, together with the processes
that were dropped, as far as they had come.

What all steps and all drops preserve holds along such a run
(`Abandoning.preserves`).
-/

namespace Leasehold.Simulation

variable {σ π ρ : Type} {turn : Behaviour σ π ρ} {rule : Rule σ π} {may : π → Prop}
  {s s' s'' : System σ π} {l l' : List π}

namespace System

/-- The system without the process of a number. -/
def drop (s : System σ π) (i : Nat) : System σ π := s.advance i s.world none []

@[simp] theorem world_drop (s : System σ π) (i : Nat) : (s.drop i).world = s.world := rfl

/-- Those who are left were there before. -/
theorem process?_of_drop {i j : Nat} {p : π} (h : (s.drop i).process? j = some p) :
    s.process? j = some p := by
  obtain ⟨-, hp⟩ | ⟨-, hnone⟩ | ⟨k, -, hnone⟩ := process?_advance_cases h
  · exact hp
  · cases hnone
  · cases hnone

theorem tally_drop (f : π → Nat) {i : Nat} {p : π} (h : s.process? i = some p) :
    (s.drop i).tally f + f p = s.tally f := by
  have hadvance := tally_advance f h s.world none []
  simp only [measure?_none, List.map_nil, List.sum_nil, Nat.add_zero] at hadvance
  exact hadvance

end System

/-- Steps that a rule allows, and drops of processes that may be dropped.  The last one
that was dropped is the first of the list. -/
inductive Abandoning (turn : Behaviour σ π ρ) (rule : Rule σ π) (may : π → Prop) :
    System σ π → List π → System σ π → Prop where
  | refl {t} : Abandoning turn rule may t [] t
  | step {t l t' c t''} :
      Abandoning turn rule may t l t' → Step turn t' c t'' → rule t' c t'' →
      Abandoning turn rule may t l t''
  | drop {t l t' i p} :
      Abandoning turn rule may t l t' → t'.process? i = some p → may p →
      Abandoning turn rule may t (p :: l) (t'.drop i)

namespace Abandoning

/-- A run may go on after processes were dropped. -/
theorem append_run (h : Abandoning turn rule may s l s') (hrun : Run turn rule s' s'') :
    Abandoning turn rule may s l s'' := by
  induction hrun with
  | refl => exact h
  | tail _ hstep hrule ih => exact ih.step hstep hrule

/-- Nobody is dropped in a run. -/
theorem nil_iff : Abandoning turn rule may s [] s' ↔ Run turn rule s s' := by
  constructor
  · intro h
    generalize hl : ([] : List π) = l at h
    induction h with
    | refl => exact .refl
    | step _ hstep hrule ih => exact .tail (ih hl) hstep hrule
    | drop => cases hl
  · exact Abandoning.refl.append_run

/-- What every step and every drop preserves holds after a run if it held before. -/
theorem preserves {I : List π → System σ π → Prop}
    (step : ∀ {l t c t'}, I l t → Step turn t c t' → rule t c t' → I l t')
    (drop : ∀ {l t i p}, I l t → t.process? i = some p → may p → I (p :: l) (t.drop i))
    (h : Abandoning turn rule may s l s') (hI : I [] s) : I l s' := by
  induction h with
  | refl => exact hI
  | step _ hstep hrule ih => exact step ih hstep hrule
  | drop _ hp hmay ih => exact drop ih hp hmay

end Abandoning

end Leasehold.Simulation
