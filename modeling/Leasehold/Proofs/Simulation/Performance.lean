import Leasehold.Simulation.Machine
import Leasehold.Proofs.Simulation.Completion
import Leasehold.Proofs.Simulation.Watch

/-!
# Performing a process that comes to an end

A process that completes on its own is watched to its end (`Completes.watch`), and a
machine with nothing in the background performs it, if its limit is high enough
(`Machine.perform_of_completes`).
-/

namespace Leasehold.Simulation

variable {α σ π ρ : Type} {turn : Behaviour σ π ρ} {t u : Instant} {w v : σ} {p : π} {r : ρ}

/-- A process that completes can be watched until the turn that ends it, also among others. -/
theorem Completes.watch (h : Completes turn t w p u v r) (others : Post σ π → σ → Prop)
    (note : Instant → σ → π → List α) :
    ∃ l w' q started records, turn u w' q = .ends v r started records ∧
      Watch turn others note ⟨t, w, some p⟩ (l ++ note u w' q) ⟨u, v, none⟩ := by
  induction h with
  | ends hturn => exact ⟨[], _, _, _, _, hturn, Watch.refl.ends hturn⟩
  | @moves t w p _ _ _ _ _ _ hturn _ ih =>
    obtain ⟨l, w', q, started, records, hends, hrest⟩ := ih
    have hfirst : Watch turn others note ⟨t, w, some p⟩ (note t w p) _ := Watch.refl.moves hturn
    refine ⟨note t w p ++ l, w', q, started, records, hends, ?_⟩
    rw [List.append_assoc]
    exact hfirst.trans hrest
  | waits hturn hle _ ih =>
    obtain ⟨l, w', q, started, records, hends, hrest⟩ := ih
    exact ⟨l, w', q, started, records, hends, (Watch.refl.waits hle fun _ => hturn).trans hrest⟩

namespace Machine

/-- What a machine that performs a process does when it has served it. -/
def resume (turn : Behaviour σ π ρ) (limit fuel : Nat) :
    Machine σ π ρ × Rest π ρ → Machine σ π ρ × Option ρ
  | (m, .over result) => (m, some result)
  | (m, .waiting p own?) =>
      match progress? turn limit m own? with
      | none => (m, none)
      | some m => perform turn limit fuel m p

theorem perform_succ (limit fuel : Nat) (m : Machine σ π ρ) (p : π) :
    perform turn limit (fuel + 1) m p = resume turn limit fuel (serve turn limit m p) := rfl

/-- Without a background, a machine jumps to the instant that its process waits for. -/
theorem progress?_of_idle {m : Machine σ π ρ} (hidle : m.tasks = []) (limit : Nat)
    (due : Instant) : progress? turn limit m (some due) = some { m with now := due } := by
  simp only [progress?, round?, due?, hidle]
  rfl

/-- What completes is performed, however far it was served before. -/
theorem resume_of_completes (h : Completes turn t w p u v r)
    (hstarts : ∀ t w p w' r started records, turn t w p = .ends w' r started records →
      started = []) {m : Machine σ π ρ} (hnow : m.now = t) (hworld : m.world = w)
    (hidle : m.tasks = []) :
    ∃ enough log, ∀ limit k fuel, enough ≤ limit → enough ≤ k → enough ≤ fuel →
      resume turn limit fuel (serve turn k m p) =
        ({ m with now := u, world := v, log }, some r) := by
  induction h generalizing m with
  | @ends t w p v r started records hends =>
    refine ⟨1, m.log ++ records, fun limit k fuel _ hk _ => ?_⟩
    obtain ⟨k, rfl⟩ := Nat.exists_eq_add_of_le' hk
    obtain rfl := hstarts _ _ _ _ _ _ _ hends
    subst hnow hworld
    rw [serve, hends]
    simp only [resume, List.map_nil, List.append_nil]
  | @moves t w p w' q records u v r hmoves _ ih =>
    obtain ⟨enough, log, hrest⟩ :=
      ih (m := { m with world := w', log := m.log ++ records }) hnow rfl hidle
    refine ⟨enough + 1, log, fun limit k fuel hlimit hk hfuel => ?_⟩
    obtain ⟨k, rfl⟩ := Nat.exists_eq_add_of_le' (Nat.le_of_add_left_le hk)
    subst hnow hworld
    rw [serve, hmoves]
    exact hrest limit k fuel (Nat.le_of_lt hlimit) (Nat.le_of_succ_le_succ hk) (Nat.le_of_lt hfuel)
  | @waits t w p due u v r hwaits _ _ ih =>
    obtain ⟨enough, log, hrest⟩ := ih (m := { m with now := due }) rfl hworld hidle
    refine ⟨enough + 1, log, fun limit k fuel hlimit hk hfuel => ?_⟩
    obtain ⟨k, rfl⟩ := Nat.exists_eq_add_of_le' (Nat.le_of_add_left_le hk)
    obtain ⟨fuel, rfl⟩ := Nat.exists_eq_add_of_le' (Nat.le_of_add_left_le hfuel)
    subst hnow hworld
    rw [serve, hwaits]
    simp only [resume, progress?_of_idle hidle, perform_succ]
    exact hrest limit limit fuel (Nat.le_of_lt hlimit) (Nat.le_of_lt hlimit)
      (Nat.le_of_succ_le_succ hfuel)

/-- What completes is performed, if the limit is high enough. -/
theorem perform_of_completes (m : Machine σ π ρ) (h : Completes turn m.now m.world p u v r)
    (hstarts : ∀ t w p w' r started records, turn t w p = .ends w' r started records →
      started = []) (hidle : m.tasks = []) :
    ∃ enough log, ∀ limit, enough ≤ limit →
      perform turn limit limit m p = ({ m with now := u, world := v, log }, some r) := by
  obtain ⟨enough, log, hresume⟩ := resume_of_completes h hstarts rfl rfl hidle
  refine ⟨enough + 1, log, fun limit hlimit => ?_⟩
  obtain ⟨fuel, rfl⟩ := Nat.exists_eq_add_of_le' (Nat.le_of_add_left_le hlimit)
  exact hresume _ _ fuel (Nat.le_of_lt hlimit) (Nat.le_of_lt hlimit)
    (Nat.le_of_succ_le_succ hlimit)

end Machine

end Leasehold.Simulation
