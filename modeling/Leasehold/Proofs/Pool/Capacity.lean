import Leasehold.Proofs.Pool.Custody
import Mathlib.Data.List.Perm.Subperm

/-!
# The capacity of a pool

No more resources are idle than the pool has places, and under the bounded policy no
more are open.  `Within.step` shows both, and with the custody and the books of the
pool it follows that no more resources are there, or being made, than the pool has
places (`alive_le_opened`).

A place is reserved before a resource is made and given up when it could not be made.
What others do in between is added and taken off as if there had been no reservation
(`within_capacity`).
-/

namespace Leasehold.Pool

open Simulation

/-- A resource that is being made for an operation. -/
@[simp] def Process.making : Process → List Nat
  | .creating work => work.product
  | _ => []

/-- No more resources are idle than the pool has places, and under the bounded policy
no more are open. -/
structure Fits (p : Pool) : Prop where
  idle : p.idle.length ≤ p.capacity
  opened : p.config.checkout = .bounded → p.opened ≤ p.capacity

theorem capacity_congr {p p' : Pool} (h : p'.config = p.config) : p'.capacity = p.capacity := by
  rw [capacity, h, capacity]

theorem Fits.of_fewer {p p' : Pool} (h : p.Fits) (hconfig : p'.config = p.config)
    (hidle : p'.idle.length ≤ p.idle.length) (hopened : p'.opened ≤ p.opened) : p'.Fits := by
  refine ⟨?_, fun hbounded => ?_⟩
  · rw [capacity_congr hconfig]
    exact Nat.le_trans hidle h.idle
  · rw [capacity_congr hconfig]
    exact Nat.le_trans hopened (h.opened (hconfig ▸ hbounded))

namespace Scenario

/-- A resource that is being made for a process. -/
def Process.making : Process → List Nat
  | .operation p => p.making
  | .action _ | .checking _ | .asleep _ => []

variable {s s' : Use} {c : Choice Process}

/-- The resources that were made, and handed out by the supply, and that were not
passed on to be destroyed. -/
def alive (s : Use) : List Nat :=
  s.world.made.filter fun id => id ∉ s.world.destroyed ++ s.running.flatMap Process.making

/-! ## What is alive is counted -/

theorem Process.hands_length_le {p : Process} (hfit : p.Fit) :
    p.hands.length ≤ p.unaccounted + p.making.length := by
  cases p with
  | operation p =>
    cases p with
    | filling | emptying => cases hfit
    | releasing rest => simp [Process.making]
    | getting | checking | evicting | creating | rejecting | closing => simp [Process.making]
  | action | checking | asleep => exact Nat.zero_le _

theorem Process.making_count_le (p : Process) (id : Nat) :
    p.making.count id ≤ p.hands.count id := by
  cases p with
  | operation p => cases p <;> simp [Process.making]
  | action | checking | asleep => exact Nat.zero_le _

/-- What is alive, destroyed or being made is at most what was made. -/
theorem Custody.alive_subperm (h : Custody s) :
    (alive s ++ (s.world.destroyed ++ s.running.flatMap Process.making)).Subperm s.world.made := by
  refine List.subperm_ext_iff.mpr fun id _ => ?_
  have htotal := custody_iff.mp h id
  have hmaking := System.tally_mono (s := s) fun p _ => p.making_count_le id
  rw [World.count_found] at htotal
  rw [List.count_append, List.count_append, System.count_flatMap_running]
  -- What is destroyed or being made is not alive, and all else is alive as often as made.
  by_cases hgone : id ∈ s.world.destroyed ++ s.running.flatMap Process.making
  · have hnone : (alive s).count id = 0 := by
      rw [List.count_eq_zero, alive, List.mem_filter]
      simp [hgone]
    omega
  · have hdestroyed : s.world.destroyed.count id = 0 :=
      List.count_eq_zero.mpr fun hmem => hgone (List.mem_append_left _ hmem)
    have hnot : (s.running.flatMap Process.making).count id = 0 :=
      List.count_eq_zero.mpr fun hmem => hgone (List.mem_append_right _ hmem)
    rw [System.count_flatMap_running] at hnot
    have hle : (alive s).count id ≤ s.world.made.count id := List.filter_sublist.count_le id
    omega

/-- What is alive and what is being made is at most what is open. -/
theorem alive_le_opened (hs : Sound s) (hcustody : Custody s) (hbalanced : Balanced s) :
    (alive s).length + s.tally Process.reserved ≤ s.world.inner.pool.opened := by
  have hmade := hcustody.alive_subperm.length_le
  have htotal := hcustody.length_eq
  have hhands : s.tally (fun p => p.hands.length) ≤
      s.tally Process.unaccounted + s.tally fun p => p.making.length := by
    refine System.tally_le_add fun p hp => ?_
    obtain ⟨i, hi⟩ := System.exists_process?_of_mem_running hp
    exact Process.hands_length_le (hs i p hi)
  simp only [inHands, World.found, List.length_append, System.length_flatMap_running]
    at hmade htotal
  rw [hbalanced.opened, World.kept_eq]
  omega

/-! ## The places of a pool -/

variable {now : Instant} {w w' : World} {p : Process} {next? : Option Process}
  {out? : Option Outcome} {count : Nat} {rest : List Idle}

/-- The settings never change. -/
theorem Deed.config (h : Deed now w p w' next? out?) :
    w'.inner.pool.config = w.inner.pool.config := by
  cases h with
  | aside _ hw _ _ => rw [hw.pool]
  | released _ hdrains | drained hdrains => rw [hdrains.pool]; rfl
  | _ => rfl

theorem Deed.fits (h : Deed now w p w' next? out?) (hw : w.inner.pool.Fits) :
    w'.inner.pool.Fits := by
  cases h with
  | aside _ halike _ _ => exact halike.pool ▸ hw
  | wanted | refused | exhausted | sound | unsound | unheld | rejected | surrendered | shut =>
    exact hw
  | taken _ hidle | outdated _ hidle | inspected _ hidle =>
    refine hw.of_fewer rfl ?_ (Nat.le_refl _)
    simp [hidle]
  | evicted | disposed | closed => exact hw.of_fewer rfl (Nat.le_refl _) (Nat.sub_le _ _)
  | made => exact hw.of_fewer rfl (Nat.le_refl _) (Nat.le_refl _)
  | unmade => exact hw.of_fewer rfl (Nat.le_refl _) (Nat.sub_le _ _)
  | reserved _ _ hmay =>
    refine ⟨hw.idle, fun hbounded => ?_⟩
    change w.inner.pool.config.checkout = .bounded at hbounded
    simp only [mayOpen, hbounded, decide_eq_true_eq] at hmay
    exact hmay
  | stored _ _ hroom =>
    refine ⟨?_, hw.opened⟩
    change (w.inner.pool.idle ++ _).length ≤ w.inner.pool.capacity
    rw [List.length_append]
    exact hroom
  | released _ hdrains =>
    rw [hdrains.pool]
    exact hw.of_fewer rfl (Nat.zero_le _) (Nat.le_refl _)
  | drained hdrains =>
    rw [hdrains.pool]
    exact hw.of_fewer rfl (Nat.le_refl _) (Nat.sub_le _ _)

theorem Config.initial_le_max {c : Config} (h : c.fault? = none) :
    c.initial.toNat ≤ c.max.toNat := by
  unfold Config.fault? at h
  split at h
  · cases h
  next hle => exact Nat.le_of_not_lt fun hlt => hle (UInt64.lt_iff_toNat_lt.mpr hlt)

theorem Fresh.fits (h : Fresh s) : s.world.inner.pool.Fits := by
  have hle := Config.initial_le_max h.valid
  refine ⟨?_, fun _ => ?_⟩
  · rw [h.length_idle]
    exact hle
  · rw [h.opened]
    exact hle

/-- The pool has the settings that it had, and no more than its places. -/
structure Within (c : Config) (s : Use) : Prop where
  config : s.world.inner.pool.config = c
  fits : s.world.inner.pool.Fits

theorem Within.step {config : Config} (h : Within config s) (hdoing : Doing s c s') :
    Within config s' := by
  cases hdoing with
  | deed hp hdeed => exact ⟨hdeed.config.trans h.config, hdeed.fits h.fits⟩
  | start | pass => exact ⟨h.config, h.fits⟩

/-! ## Reservations -/

/-- Somebody who waits for a resource has a new one made. -/
structure Reserves (s : Use) (i : Nat) (work : Work) (s' : Use) : Prop where
  step : Simulation.Step turn s (.turn i) s'
  before : s.process? i = some (.operation .getting)
  after : s'.process? i = some (.operation (.creating work))

theorem Reserves.opened {i : Nat} {work : Work} (h : Reserves s i work s') (hs : Sound s) :
    s'.world.inner.pool.opened = s.world.inner.pool.opened + 1 := by
  obtain ⟨hstep, hbefore, hafter⟩ := h
  cases hs.doing hstep trivial with
  | deed hp hdeed =>
    rw [System.process?_advance_self (System.lt_length_of_process? hp)] at hafter
    cases hbefore.symm.trans hp
    cases hafter
    cases hdeed with
    | aside haside => cases haside
    | reserved => rfl

/-- What a reservation adds is taken off when the resource could not be made. -/
theorem Reserves.restored {i : Nat} {work : Work} {e : ResourceError} {s₁ s₂ s₃ : Use}
    (h : Reserves s i work s₁) (hs : Sound s) (hs₂ : Sound s₂) (hbalanced : Balanced s₂)
    (hp : s₂.process? i = some (.operation (.creating work))) (hfailed : work.outcome = .error e)
    (hstep : Simulation.Step turn s₂ (.turn i) s₃) :
    s₃.world.inner.pool.opened + s₁.world.inner.pool.opened =
      s.world.inner.pool.opened + s₂.world.inner.pool.opened := by
  have hreserved := h.opened hs
  have hsub : Subtracting s₂ (.turn i) := ⟨_, hp, _, rfl, e, hfailed⟩
  have htaken := (hbalanced.subtracting (hs₂.doing hstep trivial)).1 hsub
  omega

/-! ## Runs within the capacity -/

theorem Fresh.run_within {s₀ : Use} (h : Fresh s₀) (hrun : Run turn Admitted s₀ s) :
    Within s₀.world.inner.pool.config s :=
  h.preserves Within.step ⟨rfl, h.fits⟩ hrun

/-- A pool keeps to its capacity all along a run, and a resource that could not be made
leaves its place to others. -/
theorem within_capacity {s₀ : Use} (hfresh : Fresh s₀) (hrun : Run turn Admitted s₀ s) :
    s.world.idleIds.length ≤ s₀.world.inner.pool.capacity ∧
      (s₀.world.inner.pool.config.checkout = .bounded →
        s.world.inner.pool.opened ≤ s₀.world.inner.pool.capacity ∧
          (alive s).length + s.tally Process.reserved ≤ s₀.world.inner.pool.capacity) ∧
      ∀ i work s₁ s₂ s₃ e, Reserves s i work s₁ → Run turn Admitted s₁ s₂ →
        s₂.process? i = some (.operation (.creating work)) → work.outcome = .error e →
        Simulation.Step turn s₂ (.turn i) s₃ →
        s₃.world.inner.pool.opened + s₁.world.inner.pool.opened =
          s.world.inner.pool.opened + s₂.world.inner.pool.opened := by
  have hs := hfresh.run_sound hrun
  have hbalanced := hfresh.run_balanced hrun
  obtain ⟨hconfig, hfits⟩ := hfresh.run_within hrun
  have hcapacity := capacity_congr hconfig
  refine ⟨?_, fun hbounded => ?_, fun i work s₁ s₂ s₃ e hreserves hrun₂ hp hfailed hstep => ?_⟩
  · rw [World.idleIds, List.length_map, ← hcapacity]
    exact hfits.idle
  · have hopened := hfits.opened (hconfig ▸ hbounded)
    have halive := alive_le_opened hs (hfresh.run_custody hrun) hbalanced
    rw [hcapacity] at hopened
    exact ⟨hopened, Nat.le_trans halive hopened⟩
  · have hrun₁ : Run turn Admitted s₀ s₁ := hrun.tail hreserves.step trivial
    have hadmitted := hrun₁.trans hrun₂
    exact hreserves.restored hs (hfresh.run_sound hadmitted) (hfresh.run_balanced hadmitted) hp
      hfailed hstep

/-- A bounded pool of two places with one resource, whose supply makes no other. -/
def scarce : Use where
  now := .epoch
  world :=
    { inner :=
        { pool :=
            { config := { max := 2, checkout := .bounded }
              idle := [⟨1, .epoch⟩], opened := 1, stats := { created := 1 } }
          supply :=
            { inspection := .unused, made := 1, jobs := [.create], createsLeft? := some 0 } } }

theorem fresh_scarce : Fresh scarce where
  valid := by decide
  idle := rfl
  opened := rfl
  unclosed := rfl
  stats := rfl
  made := rfl
  destroyed := rfl
  held := rfl
  quiet := rfl

/-- While a resource is made for one user and cannot be, another one is refused. -/
theorem within_capacity_scarce :
    ∃ s s₁ s₂ s₃ work e, Fresh scarce ∧ Run turn Admitted scarce s ∧ Reserves s 1 work s₁ ∧
      Run turn Admitted s₁ s₂ ∧ s₂.process? 1 = some (.operation (.creating work)) ∧
      s₂.process? 2 = none ∧ work.outcome = .error e ∧ Simulation.Step turn s₂ (.turn 1) s₃ ∧
      (alive s₂).length + s₂.tally Process.reserved ≤ 2 ∧
      s₃.world.inner.pool.opened + s₁.world.inner.pool.opened =
        s.world.inner.pool.opened + s₂.world.inner.pool.opened := by
  obtain ⟨s, s₁, s₂, s₃, work, e, hrun, hreserves, hrun₂, hp, hover, hfailed, hstep⟩ :
      ∃ s s₁ s₂ s₃ work e, Run turn Admitted scarce s ∧ Reserves s 1 work s₁ ∧
        Run turn Admitted s₁ s₂ ∧ s₂.process? 1 = some (.operation (.creating work)) ∧
        s₂.process? 2 = none ∧ work.outcome = .error e ∧
        Simulation.Step turn s₂ (.turn 1) s₃ :=
    ⟨_, _, _, _, _, _, .of_follow? [.start (.action .get), .turn 0, .turn 0,
        .start (.action .get), .turn 1] rfl, ⟨.of_step? rfl, rfl, rfl⟩,
      .of_follow? [.start (.action .get), .turn 2, .turn 2] rfl, rfl, rfl, rfl, .of_step? rfl⟩
  have hwithin := within_capacity fresh_scarce hrun
  have hwithin₂ := within_capacity fresh_scarce ((hrun.tail hreserves.step trivial).trans hrun₂)
  exact ⟨s, s₁, s₂, s₃, work, e, fresh_scarce, hrun, hreserves, hrun₂, hp, hover, hfailed, hstep,
    (hwithin₂.2.1 rfl).2, hwithin.2.2 1 work s₁ s₂ s₃ e hreserves hrun₂ hp hfailed hstep⟩

end Scenario

end Leasehold.Pool
