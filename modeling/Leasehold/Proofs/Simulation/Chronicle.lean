import Leasehold.Proofs.Simulation.Run

/-!
# Chronicles

A `Chronicle` is a run together with what was written down of each of its steps.  A
`note` says what that is: it looks at the system before the step and at the choice.

What holds of everything that is written down in a system with an invariant holds of
all of a chronicle (`Chronicle.notes`).
-/

namespace Leasehold.Simulation

variable {α σ π ρ : Type} {turn : Behaviour σ π ρ} {rule : Rule σ π}
  {note : System σ π → Choice π → List α} {s s' : System σ π} {l : List α}

/-- A process that has no turn stays as it is. -/
theorem Step.process?_of_not_turn {c : Choice π} (h : Step turn s c s') {i : Nat}
    (hc : ¬ c.IsTurn i) (hlt : i < s.processes.length) : s'.process? i = s.process? i := by
  cases h with
  | moves => exact System.process?_advance_of_ne hlt (fun heq => hc heq.symm) _ _ _
  | ends => exact System.process?_advance_of_ne hlt (fun heq => hc heq.symm) _ _ _
  | start p => exact System.process?_add_of_lt hlt p
  | pass => rfl

/-- Steps that a rule allows, and what was written down of them, in order. -/
inductive Chronicle (turn : Behaviour σ π ρ) (rule : Rule σ π)
    (note : System σ π → Choice π → List α) : System σ π → List α → System σ π → Prop where
  | nil {t} : Chronicle turn rule note t [] t
  | cons {t c t' l t''} :
      Step turn t c t' → rule t c t' → Chronicle turn rule note t' l t'' →
      Chronicle turn rule note t (note t c ++ l) t''

namespace Chronicle

theorem run (h : Chronicle turn rule note s l s') : Run turn rule s s' := by
  induction h with
  | nil => exact .refl
  | cons hstep hrule _ ih => exact .head hstep hrule ih

/-- What every allowed step preserves, and what it makes of what is written down. -/
theorem notes {I : System σ π → Prop} {P : α → Prop}
    (step : ∀ {s c s'}, I s → Step turn s c s' → rule s c s' → I s' ∧ ∀ a ∈ note s c, P a)
    (h : Chronicle turn rule note s l s') (hI : I s) : I s' ∧ ∀ a ∈ l, P a := by
  induction h with
  | nil => exact ⟨hI, by simp⟩
  | cons hstep hrule _ ih =>
    obtain ⟨hI', hnote⟩ := step hI hstep hrule
    obtain ⟨hlast, hrest⟩ := ih hI'
    refine ⟨hlast, fun a ha => ?_⟩
    obtain ha | ha := List.mem_append.mp ha
    · exact hnote a ha
    · exact hrest a ha

end Chronicle

/-- What is written down of the choices of a list, as far as they are possible. -/
def System.notes (turn : Behaviour σ π ρ) (note : System σ π → Choice π → List α)
    (s : System σ π) : List (Choice π) → List α
  | [] => []
  | c :: cs =>
      match s.step? turn c with
      | none => []
      | some s' => note s c ++ s'.notes turn note cs

theorem Chronicle.of_follow? [∀ s c s', Decidable (rule s c s')] (cs : List (Choice π))
    (h : s.follow? turn rule cs = some s') :
    Chronicle turn rule note s (s.notes turn note cs) s' := by
  induction cs generalizing s with
  | nil =>
    cases h
    exact .nil
  | cons c cs ih =>
    simp only [System.follow?] at h
    split at h
    next => cases h
    next hstep =>
      split at h
      next hrule =>
        simp only [System.notes, hstep]
        exact .cons (.of_step? hstep) hrule (ih h)
      next => cases h

end Leasehold.Simulation
