import Leasehold.Proofs.Simulation.Run

/-!
# Histories

A `History` is a run together with the choices that made it and with what came of
the processes that ended in it: the `Ending` of a process is its number, its result
and the instant.

What holds of every ending in a system with an invariant holds of all endings of a
history (`History.endings`).
-/

namespace Leasehold.Simulation

/-- The end of a process. -/
structure Ending (ρ : Type) where
  /-- The number of the process. -/
  number : Nat
  /-- Its result. -/
  result : ρ
  /-- When it ended. -/
  instant : Instant

variable {σ π ρ : Type} {turn : Behaviour σ π ρ} {rule rule' : Rule σ π}
  {s s' s'' : System σ π} {c : Choice π} {cs cs' : List (Choice π)} {es es' : List (Ending ρ)}

/-- The process that ends by a choice, if one does. -/
def System.ending? (turn : Behaviour σ π ρ) (s : System σ π) : Choice π → Option (Ending ρ)
  | .turn i =>
      match s.process? i with
      | none => none
      | some p =>
          match turn s.now s.world p with
          | .ends _ result _ _ => some ⟨i, result, s.now⟩
          | .waits _ | .moves .. => none
  | .start _ | .pass _ => none

theorem System.ending?_of_moves {i : Nat} {p : π} {w : σ} {next : π} {records : List Log.Record}
    (hp : s.process? i = some p) (hturn : turn s.now s.world p = .moves w next records) :
    s.ending? turn (.turn i) = none := by
  simp only [ending?, hp, hturn]

theorem System.ending?_of_ends {i : Nat} {p : π} {w : σ} {result : ρ} {started : List π}
    {records : List Log.Record} (hp : s.process? i = some p)
    (hturn : turn s.now s.world p = .ends w result started records) :
    s.ending? turn (.turn i) = some ⟨i, result, s.now⟩ := by
  simp only [ending?, hp, hturn]

/-- A process that is over stays over. -/
theorem Step.stays_over (h : Step turn s c s') {i : Nat} (hlt : i < s.processes.length)
    (hover : s.process? i = none) : s'.process? i = none := by
  cases h with
  | @moves j _ _ _ _ hj =>
    have hij : i ≠ j := by rintro rfl; rw [hover] at hj; cases hj
    exact (System.process?_advance_of_ne hlt hij _ _ _).trans hover
  | @ends j _ _ _ _ _ hj =>
    have hij : i ≠ j := by rintro rfl; rw [hover] at hj; cases hj
    exact (System.process?_advance_of_ne hlt hij _ _ _).trans hover
  | start p => exact (System.process?_add_of_lt hlt p).trans hover
  | pass => exact hover

/-- A process that ends was not over, and is over then. -/
theorem Step.of_ending? (h : Step turn s c s') {e : Ending ρ} (he : s.ending? turn c = some e) :
    (∃ p, s.process? e.number = some p) ∧ s'.process? e.number = none := by
  cases h with
  | moves hp hturn =>
    rw [System.ending?_of_moves hp hturn] at he
    cases he
  | ends hp hturn =>
    rw [System.ending?_of_ends hp hturn] at he
    cases he
    exact ⟨⟨_, hp⟩, System.process?_advance_self (System.lt_length_of_process? hp) _ _ _⟩
  | start | pass => cases he

theorem System.eq_turn_of_ending? {e : Ending ρ} (h : s.ending? turn c = some e) :
    c = .turn e.number := by
  cases c with
  | turn i =>
    simp only [ending?] at h
    split at h
    · cases h
    · split at h
      · cases h; rfl
      · cases h
      · cases h
  | start | pass => cases h

/-- Steps that a rule allows, the choices that made them, and the processes that
ended. -/
inductive History (turn : Behaviour σ π ρ) (rule : Rule σ π) :
    System σ π → List (Choice π) → List (Ending ρ) → System σ π → Prop where
  | nil {t} : History turn rule t [] [] t
  | cons {t c t' cs es t''} :
      Step turn t c t' → rule t c t' → History turn rule t' cs es t'' →
      History turn rule t (c :: cs) ((t.ending? turn c).toList ++ es) t''

namespace History

theorem run (h : History turn rule s cs es s') : Run turn rule s s' := by
  induction h with
  | nil => exact .refl
  | cons hstep hrule _ ih => exact .head hstep hrule ih

theorem append (h : History turn rule s cs es s') (h' : History turn rule s' cs' es' s'') :
    History turn rule s (cs ++ cs') (es ++ es') s'' := by
  induction h with
  | nil => exact h'
  | cons hstep hrule _ ih =>
    rw [List.append_assoc]
    exact .cons hstep hrule (ih h')

/-- What every allowed step preserves, and what it makes of the process that ends. -/
theorem endings {I : System σ π → Prop} {P : Ending ρ → Prop}
    (step : ∀ {s c s'}, I s → Step turn s c s' → rule s c s' →
      I s' ∧ ∀ e, s.ending? turn c = some e → P e)
    (h : History turn rule s cs es s') (hI : I s) : I s' ∧ ∀ e ∈ es, P e := by
  induction h with
  | nil => exact ⟨hI, by simp⟩
  | cons hstep hrule _ ih =>
    obtain ⟨hI', hend⟩ := step hI hstep hrule
    obtain ⟨hlast, hrest⟩ := ih hI'
    refine ⟨hlast, fun e he => ?_⟩
    rcases List.mem_append.mp he with he | he
    · exact hend e (Option.mem_toList.mp he)
    · exact hrest e he

theorem stays_over (h : History turn rule s cs es s') {i : Nat} (hlt : i < s.processes.length)
    (hover : s.process? i = none) : s'.process? i = none := by
  induction h with
  | nil => exact hover
  | cons hstep _ _ ih => exact ih (Nat.lt_of_lt_of_le hlt hstep.length_le) (hstep.stays_over hlt hover)

/-- Who has ended in a history is over after it. -/
theorem over_of_ending (h : History turn rule s cs es s') {e : Ending ρ} (he : e ∈ es) :
    s'.process? e.number = none := by
  induction h with
  | nil => cases he
  | cons hstep _ hrest ih =>
    rcases List.mem_append.mp he with he | he
    · obtain ⟨⟨p, hp⟩, hover⟩ := hstep.of_ending? (Option.mem_toList.mp he)
      have hlt := System.lt_length_of_process? hp
      exact hrest.stays_over (Nat.lt_of_lt_of_le hlt hstep.length_le) hover
    · exact ih he

/-- Who has ended in a history was not over before it. -/
theorem not_over_of_ending (h : History turn rule s cs es s') {e : Ending ρ} (he : e ∈ es)
    (hlt : e.number < s.processes.length) : s.process? e.number ≠ none := by
  intro hover
  induction h with
  | nil => cases he
  | cons hstep _ hrest ih =>
    rcases List.mem_append.mp he with he | he
    · obtain ⟨⟨p, hp⟩, -⟩ := hstep.of_ending? (Option.mem_toList.mp he)
      rw [hover] at hp
      cases hp
    · exact ih he (Nat.lt_of_lt_of_le hlt hstep.length_le) (hstep.stays_over hlt hover)

/-- Who is over after a history, but was not before, has ended in it. -/
theorem exists_ending (h : History turn rule s cs es s') {i : Nat} {p : π}
    (hp : s.process? i = some p) (hover : s'.process? i = none) : ∃ e ∈ es, e.number = i := by
  induction h generalizing p with
  | nil => rw [hp] at hover; cases hover
  | @cons t c t' cs es t'' hstep hrule _ ih =>
    have hlt := System.lt_length_of_process? hp
    have hrest : ∀ q, t'.process? i = some q →
        ∃ e ∈ (t.ending? turn c).toList ++ es, e.number = i := by
      intro q hq
      obtain ⟨e, he, hnumber⟩ := ih hq hover
      exact ⟨e, List.mem_append_right _ he, hnumber⟩
    cases hstep with
    | @moves j =>
      by_cases hij : i = j
      · subst hij
        exact hrest _ (System.process?_advance_self hlt _ _ _)
      · exact hrest _ ((System.process?_advance_of_ne hlt hij _ _ _).trans hp)
    | @ends j _ _ result _ _ hj hturn =>
      by_cases hij : i = j
      · subst hij
        rw [System.ending?_of_ends hj hturn]
        exact ⟨_, List.mem_append_left _ (List.mem_singleton_self _), rfl⟩
      · exact hrest _ ((System.process?_advance_of_ne hlt hij _ _ _).trans hp)
    | start q => exact hrest _ ((System.process?_add_of_lt hlt q).trans hp)
    | pass => exact hrest _ hp

end History

/-- Who ends, choice by choice. -/
def System.endings (turn : Behaviour σ π ρ) (s : System σ π) : List (Choice π) → List (Ending ρ)
  | [] => []
  | c :: cs =>
      (s.ending? turn c).toList ++
        match s.step? turn c with
        | none => []
        | some s' => s'.endings turn cs

theorem History.of_follow? [∀ s c s', Decidable (rule s c s')] (cs : List (Choice π))
    (h : s.follow? turn rule cs = some s') : History turn rule s cs (s.endings turn cs) s' := by
  induction cs generalizing s with
  | nil => cases h; exact .nil
  | cons c cs ih =>
    simp only [System.follow?] at h
    split at h
    next => cases h
    next s₁ hstep =>
      split at h
      next hrule =>
        simp only [System.endings, hstep]
        exact .cons (.of_step? hstep) hrule (ih h)
      next => cases h

theorem Run.exists_history (h : Run turn rule s s') : ∃ cs es, History turn rule s cs es s' := by
  induction h with
  | refl => exact ⟨[], [], .nil⟩
  | tail _ hstep hrule ih =>
    obtain ⟨cs, es, hbefore⟩ := ih
    exact ⟨_, _, hbefore.append (.cons hstep hrule .nil)⟩

end Leasehold.Simulation
