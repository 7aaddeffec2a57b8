import Leasehold.Simulation.Turn

/-!
# Processes that run on their own

A process that nobody disturbs has one turn after the other and waits exactly as long as
it has to.  `Completes` says when it ends, with which result, and what it leaves behind.
There is at most one such end (`Completes.unique`).
-/

namespace Leasehold.Simulation

variable {σ π ρ : Type} {turn : Behaviour σ π ρ} {t u u' : Instant} {w w' v v' : σ} {p q : π}
  {r r' : ρ}

/-- A process that begins at an instant in a world ends at another one in another, with a
result. -/
inductive Completes (turn : Behaviour σ π ρ) : Instant → σ → π → Instant → σ → ρ → Prop where
  | ends {t w p w' r started records} :
      turn t w p = .ends w' r started records → Completes turn t w p t w' r
  | moves {t w p w' q records u v r} :
      turn t w p = .moves w' q records → Completes turn t w' q u v r → Completes turn t w p u v r
  | waits {t w p due u v r} :
      turn t w p = .waits (some due) → t ≤ due → Completes turn due w p u v r →
      Completes turn t w p u v r

namespace Completes

theorem unique (h : Completes turn t w p u v r) (h' : Completes turn t w p u' v' r') :
    u = u' ∧ v = v' ∧ r = r' := by
  induction h with
  | ends hturn =>
    cases h' with
    | ends hturn' => cases hturn.symm.trans hturn'; exact ⟨rfl, rfl, rfl⟩
    | moves hturn' => cases hturn.symm.trans hturn'
    | waits hturn' => cases hturn.symm.trans hturn'
  | moves hturn _ ih =>
    cases h' with
    | ends hturn' => cases hturn.symm.trans hturn'
    | moves hturn' hrest => cases hturn.symm.trans hturn'; exact ih hrest
    | waits hturn' => cases hturn.symm.trans hturn'
  | waits hturn _ _ ih =>
    cases h' with
    | ends hturn' => cases hturn.symm.trans hturn'
    | moves hturn' => cases hturn.symm.trans hturn'
    | waits hturn' _ hrest => cases hturn.symm.trans hturn'; exact ih hrest

theorem le (h : Completes turn t w p u v r) : t ≤ u := by
  induction h with
  | ends => exact Nat.le_refl _
  | moves _ _ ih => exact ih
  | waits _ hle _ ih => exact Nat.le_trans hle ih

end Completes

/-! ## Processes that are a part of another one -/

/-- What a turn that does not wait leads to in the end. -/
def Turn.Leads (turn : Behaviour σ π ρ) (t : Instant) :
    Turn σ π ρ → Instant → σ → ρ → Prop
  | .waits _, _, _, _ => False
  | .moves w q _, u, v, r => Completes turn t w q u v r
  | .ends w a _ _, u, v, r => u = t ∧ v = w ∧ r = a

theorem Turn.Leads.completes (h : (turn t w p).Leads turn t u v r) :
    Completes turn t w p u v r := by
  cases hturn : turn t w p with
  | waits => rw [hturn] at h; exact h.elim
  | moves => rw [hturn] at h; exact .moves hturn h
  | ends =>
    rw [hturn] at h
    obtain ⟨rfl, rfl, rfl⟩ := h
    exact .ends hturn

/-- What is written on a turn does not matter. -/
theorem Turn.leads_after {x : Turn σ π ρ} {records : List Log.Record} :
    (x.after records).Leads turn t u v r ↔ x.Leads turn t u v r := by
  cases x <;> rfl

section

variable {π' ρ' : Type} {turn' : Behaviour σ π' ρ'} {next : π → π'} {a : ρ'}
  {done : π → Instant → σ → ρ → Turn σ π' ρ'}
  (hturn : ∀ t w p, turn' t w (next p) = (turn t w p).within id next (done p t))

include hturn

/-- A process goes on as what it is a part of when it is over. -/
theorem Completes.within (h : Completes turn t w p u v r)
    (hrest : ∀ q, (done q u v r).Leads turn' u u' v' a) : Completes turn' t w (next p) u' v' a := by
  induction h with
  | @ends t w p v r started records hends =>
    refine Turn.Leads.completes ?_
    rw [hturn, hends]
    exact Turn.leads_after.mpr (hrest p)
  | @moves t w p w' q records u v r hmoves _ ih =>
    have hturn := hturn t w p
    rw [hmoves] at hturn
    exact .moves hturn (ih hrest)
  | @waits t w p due u v r hwaits hle _ ih =>
    have hturn := hturn t w p
    rw [hwaits] at hturn
    exact .waits hturn hle (ih hrest)

/-- What a process is a part of ends only after the process. -/
theorem Completes.of_within (hdone : ∀ {p t w r due?}, done p t w r ≠ .waits due?)
    (h : Completes turn' t w (next p) u' v' a) :
    ∃ q u v r, Completes turn t w p u v r ∧ (done q u v r).Leads turn' u u' v' a := by
  -- The turn in which the process ends leads on to where the whole ends.
  have hends : ∀ {t w p u' v' a v r started records},
      turn t w p = .ends v r started records →
      (turn' t w (next p)).Leads turn' t u' v' a →
      ∃ q u v r, Completes turn t w p u v r ∧ (done q u v r).Leads turn' u u' v' a := by
    intro t w p u' v' a v r started records hcase hleads
    rw [hturn, hcase] at hleads
    exact ⟨p, t, v, r, .ends hcase, Turn.leads_after.mp hleads⟩
  generalize hq : next p = q at h
  induction h generalizing p with
  | @ends t w q v' a started records hover =>
    subst hq
    cases hcase : turn t w p with
    | waits => rw [hturn, hcase] at hover; cases hover
    | moves => rw [hturn, hcase] at hover; cases hover
    | ends v r => exact hends hcase (by rw [hover]; exact ⟨rfl, rfl, rfl⟩)
  | @moves t w q w' q' records u' v' a hmoves hgoes ih =>
    subst hq
    cases hcase : turn t w p with
    | waits => rw [hturn, hcase] at hmoves; cases hmoves
    | moves w₁ p₁ =>
      rw [hturn, hcase] at hmoves
      cases hmoves
      obtain ⟨q, u, v, r, hpart, hrest⟩ := ih rfl
      exact ⟨q, u, v, r, .moves hcase hpart, hrest⟩
    | ends v r => exact hends hcase (by rw [hmoves]; exact hgoes)
  | @waits t w q due u' v' a hwaits hle _ ih =>
    subst hq
    cases hcase : turn t w p with
    | waits =>
      rw [hturn, hcase] at hwaits
      cases hwaits
      obtain ⟨q, u, v, r, hpart, hrest⟩ := ih rfl
      exact ⟨q, u, v, r, .waits hcase hle hpart, hrest⟩
    | moves => rw [hturn, hcase] at hwaits; cases hwaits
    | ends v r =>
      rw [hturn, hcase, Turn.within] at hwaits
      cases hrest : done p t v r with
      | waits => exact absurd hrest hdone
      | moves => rw [id, hrest] at hwaits; cases hwaits
      | ends => rw [id, hrest] at hwaits; cases hwaits

end

end Leasehold.Simulation
