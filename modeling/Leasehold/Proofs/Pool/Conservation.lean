import Leasehold.Proofs.Pool.Custody

/-!
# No resource of a pool is lost

`conserved` puts the custody of the resources and the books of the pool together,
for every run: however the operations come in between each other, and whatever jobs
of the supply fail.

That a resource is not handed out again before it came back takes one more
invariant, along the part of the run after it was handed out: it is in the hands of
its user or was destroyed (`keeps_of_run`).
-/

namespace Leasehold.Pool.Scenario

open Simulation

/-! ## Resources that do not come back -/

/-- Somebody puts a resource back. -/
def Process.Puts (id : Nat) : Process → Prop
  | .action (.put id' _) => id' = id
  | _ => False

instance (id : Nat) (p : Process) : Decidable (p.Puts id) := by
  unfold Process.Puts
  split <;> infer_instance

/-- Nobody puts a resource back. -/
def Unreturned (id : Nat) : Rule World Process := fun s c s' =>
  Admitted s c s' ∧
    match c with
    | .turn i => ∀ p ∈ s.process? i, ¬ p.Puts id
    | .start _ => True
    | .pass _ => True

instance (id : Nat) (s s' : Use) (c : Choice Process) : Decidable (Unreturned id s c s') :=
  match c with
  | .turn i => inferInstanceAs (Decidable (_ ∧ ∀ p ∈ s.process? i, ¬ p.Puts id))
  | .start _ => inferInstanceAs (Decidable (_ ∧ True))
  | .pass _ => inferInstanceAs (Decidable (_ ∧ True))

variable {s s' : Use} {c : Choice Process}

/-- A resource is in the hands of a user or was passed on to be destroyed. -/
def Keeps (w : World) (id : Nat) : Prop := id ∈ w.held ∨ id ∈ w.destroyed

theorem Drains.keeps {now : Instant} {w w' : World} {count : Nat} {rest : List Idle}
    {next? : Option Process} {out? : Option Outcome} (h : Drains now w count rest w' next? out?)
    {id : Nat} (hkeeps : Keeps w id) : Keeps w' id := by
  cases h with
  | empty => exact hkeeps
  | next => exact hkeeps.imp_right fun hmem => by simp [hmem]

theorem mem_held_handIn {w : World} {id id' : Nat} (hne : id' ≠ id) (h : id ∈ w.held) :
    id ∈ (w.handIn id').held := (List.mem_erase_of_ne hne.symm).mpr h

/-- Only somebody who puts a resource back gives it to the pool. -/
theorem Deed.keeps {now : Instant} {w w' : World} {p : Process} {next? : Option Process}
    {out? : Option Outcome} (h : Deed now w p w' next? out?) {id : Nat} (hputs : ¬ p.Puts id)
    (hkeeps : Keeps w id) : Keeps w' id := by
  cases h with
  | aside _ hw _ _ => rwa [Keeps, World.destroyed, hw.held, hw.destroyed]
  | taken | sound | made => exact hkeeps.imp_left fun hheld => List.mem_cons_of_mem _ hheld
  | reserved | outdated | inspected | unsound =>
    refine hkeeps.imp_right fun hdestroyed => ?_
    simp [hdestroyed]
  | stored =>
    exact hkeeps.imp_left fun hheld => mem_held_handIn hputs hheld
  | rejected =>
    refine hkeeps.imp (fun hheld => mem_held_handIn hputs hheld) fun hdestroyed => ?_
    simp [hdestroyed]
  | @surrendered id' =>
    obtain hheld | hdestroyed := hkeeps
    · by_cases hne : id' = id
      · exact .inr (by simp [hne])
      · exact .inl (mem_held_handIn hne hheld)
    · exact .inr (by simp [hdestroyed])
  | released _ hdrains | drained hdrains => exact hdrains.keeps hkeeps
  | wanted | refused | exhausted | evicted | unmade | unheld | disposed | closed | shut =>
    exact hkeeps

theorem keeps_step {id : Nat} (hkeeps : Keeps s.world id) (h : Doing s c s')
    (hrule : Unreturned id s c s') : Keeps s'.world id := by
  cases h with
  | deed hp hdeed => exact hdeed.keeps (hrule.2 _ hp) hkeeps
  | start | pass => exact hkeeps

/-- A resource that nobody puts back stays with its user or is destroyed. -/
theorem keeps_of_run {id : Nat} (hs : Sound s) (hkeeps : Keeps s.world id)
    (hrun : Run turn (Unreturned id) s s') : Keeps s'.world id :=
  (hrun.preserves (I := fun t => Sound t ∧ Keeps t.world id) (fun ⟨ht, hkeeps⟩ hstep hrule =>
    ⟨ht.step hstep hrule.1, keeps_step hkeeps (ht.doing hstep hrule.1) hrule⟩) ⟨hs, hkeeps⟩).2

/-! ## Conservation -/

/-- Nothing is under way at the pool. -/
def AtRest (s : Use) : Prop := ∀ i p, s.process? i = some p → p.operation? = none

theorem AtRest.tally_eq_zero {f : Process → Nat} (hrest : AtRest s)
    (hf : ∀ p, p.operation? = none → f p = 0) : s.tally f = 0 := by
  refine System.tally_eq_zero fun p hp => ?_
  obtain ⟨i, hi⟩ := System.exists_process?_of_mem_running hp
  exact hf p (hrest i p hi)

theorem AtRest.tally_unaccounted (hrest : AtRest s) : s.tally Process.unaccounted = 0 :=
  hrest.tally_eq_zero fun p hp => by rw [Process.unaccounted, hp, measure?_none]

theorem AtRest.tally_reserved (hrest : AtRest s) : s.tally Process.reserved = 0 :=
  hrest.tally_eq_zero fun p hp => by rw [Process.reserved, hp, measure?_none]

/-- Every resource that was made has one place, and the pool counts what is open. -/
structure Conserved (s : Use) : Prop where
  place : ∀ id ∈ s.world.made, ∃! place, id ∈ resources s place
  made : ∀ place, ∀ id ∈ resources s place, id ∈ s.world.made
  once : ∀ place, (resources s place).Nodup
  opened : s.world.inner.pool.opened = s.world.idleIds.length + s.world.held.length +
    s.tally Process.unaccounted + s.tally Process.reserved
  pos : ∀ i p, s.process? i = some p → p.Subtracts → 0 < s.world.inner.pool.opened
  settled : AtRest s → s.world.inner.pool.stats.created =
    s.world.inner.pool.opened + s.world.inner.pool.stats.destroyed
  evictions : s.world.inner.pool.stats.evictions ≤ s.world.inner.pool.stats.destroyed

theorem Process.Subtracts.share_pos {p : Process} (h : p.Subtracts) :
    0 < p.unaccounted + p.reserved := by
  obtain ⟨o, ho, hsub⟩ := h
  rw [Process.unaccounted, Process.reserved, ho]
  cases o with
  | getting | checking | filling | emptying => cases hsub
  | evicting | creating | rejecting | closing | releasing => simp

theorem Balanced.created_of_atRest (h : Balanced s) (hrest : AtRest s) :
    s.world.inner.pool.stats.created =
      s.world.inner.pool.opened + s.world.inner.pool.stats.destroyed := by
  rw [← h.created, hrest.tally_reserved, Nat.add_zero]

theorem conserved_of_custody (hcustody : Custody s) (hbalanced : Balanced s) : Conserved s where
  place _ hmade := hcustody.place hmade
  made _ _ hmem := hcustody.mem_made hmem
  once place := hcustody.nodup place
  opened := by rw [hbalanced.opened, World.kept_eq]
  pos i p hp hsub := Nat.lt_of_lt_of_le hsub.share_pos (hbalanced.share_le hp)
  settled hrest := hbalanced.created_of_atRest hrest
  evictions := hbalanced.evictions

/-- The resources of a pool are conserved all along a run, what is taken off the
number of open ones was there, and a resource that was handed out is not handed out
again before it was put back. -/
theorem conserved {s₀ : Use} (hfresh : Fresh s₀) (hrun : Run turn Admitted s₀ s) :
    Conserved s ∧
      (∀ c s', Simulation.Step turn s c s' → Admitted s c s' →
        (Subtracting s c → s'.world.inner.pool.opened + 1 = s.world.inner.pool.opened) ∧
          (¬ Subtracting s c → s.world.inner.pool.opened ≤ s'.world.inner.pool.opened)) ∧
      ∀ i id s₁ s₂, HandsOut s i id s₁ → Run turn (Unreturned id) s₁ s₂ →
        ∀ j s₃, ¬ HandsOut s₂ j id s₃ := by
  have hs := hfresh.run_sound hrun
  have hbalanced := hfresh.run_balanced hrun
  refine ⟨conserved_of_custody (hfresh.run_custody hrun) hbalanced, fun c s' hstep hrule => ?_, ?_⟩
  · exact hbalanced.subtracting (hs.doing hstep hrule)
  · intro i id s₁ s₂ hout hrun₂ j s₃
    have hrun₁ : Run turn Admitted s₀ s₁ := hrun.tail hout.step trivial
    have hadmitted : Run turn Admitted s₀ s₂ := hrun₁.trans (hrun₂.mono fun hrule => hrule.1)
    -- It is with a user or destroyed all the time, and nothing is handed out from there.
    have hkeeps := keeps_of_run (hfresh.run_sound hrun₁) (.inl (hout.place hs).2) hrun₂
    exact (hfresh.run_custody hadmitted).not_handsOut (hfresh.run_sound hadmitted) hkeeps

/-- A pool of one resource, which is not sound and cannot be destroyed without an
error. -/
def ailing : Use where
  now := .epoch
  world :=
    { inner :=
        { pool := { idle := [⟨1, .epoch⟩], opened := 1, stats := { created := 1 } }
          supply := { made := 1, jobs := [.create], unsound := [1], destroyFails := true } } }

theorem fresh_ailing : Fresh ailing where
  valid := by decide
  idle := rfl
  opened := rfl
  unclosed := rfl
  stats := rfl
  made := rfl
  destroyed := rfl
  held := rfl
  quiet := rfl

/-- Somebody waits for a resource.  The idle one is destroyed first, and the new one is
closed afterwards. -/
theorem conserved_ailing :
    ∃ s s' s₁ s₂ s₃, Fresh ailing ∧ Run turn Admitted ailing s ∧ Subtracting s (.turn 0) ∧
      Simulation.Step turn s (.turn 0) s' ∧
      s'.world.inner.pool.opened + 1 = s.world.inner.pool.opened ∧
      Run turn Admitted ailing s₁ ∧ Conserved s₁ ∧ HandsOut s₁ 0 2 s₂ ∧
      Run turn (Unreturned 2) s₂ s₃ ∧ s₃.world.destroyed = [1, 2] ∧ ∀ j t, ¬ HandsOut s₃ j 2 t := by
  obtain ⟨s, s', hrun, hsub, hstep, s₁, hrun₁, s₂, hout, s₃, hrun₃, hdestroyed⟩ :
      ∃ s s', Run turn Admitted ailing s ∧ Subtracting s (.turn 0) ∧
        Simulation.Step turn s (.turn 0) s' ∧ ∃ s₁, Run turn Admitted ailing s₁ ∧
        ∃ s₂, HandsOut s₁ 0 2 s₂ ∧ ∃ s₃, Run turn (Unreturned 2) s₂ s₃ ∧
        s₃.world.destroyed = [1, 2] :=
    ⟨_, _, .of_follow? [.start (.action .get), .turn 0, .turn 0, .turn 0] rfl,
      ⟨_, rfl, _, rfl, trivial⟩, .of_step? rfl,
      _, .of_follow? [.start (.action .get), .turn 0, .turn 0, .turn 0, .turn 0, .turn 0] rfl,
      _, ⟨_, _, _, rfl, rfl, rfl⟩,
      _, .of_follow? [.start (.action (.close 2 false)), .turn 1, .turn 1] rfl, rfl⟩
  have hconserved := conserved fresh_ailing hrun
  have hconserved₁ := conserved fresh_ailing hrun₁
  exact ⟨s, s', s₁, s₂, s₃, fresh_ailing, hrun, hsub, hstep,
    (hconserved.2.1 _ s' hstep trivial).1 hsub, hrun₁, hconserved₁.1, hout, hrun₃, hdestroyed,
    hconserved₁.2.2 0 2 s₂ s₃ hout hrun₃⟩

end Leasehold.Pool.Scenario
