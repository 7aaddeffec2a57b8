import Leasehold.Proofs.Pool.Runs

/-!
# The books of a pool

A pool counts what is idle, what its users hold and what the operations under way
answer for: a resource that an operation took out of the queue or took back and
that is not yet counted as destroyed (`unaccounted`), and a place that it reserved
for a resource that is being made (`reserved`).

`Deed.opened` and `Deed.created` balance the books over one deed, `Doing.opened` and
`Balanced.step` over one step and `Fresh.run_balanced` over a run.  `Deed.subtracts`
says which deeds take one off the number of open resources; as the books are
balanced, there is always one to be taken off.
-/

namespace Leasehold.Pool

open Simulation

/-- How many resources that are out of the queue an operation answers for until
they are handed out or counted as destroyed. -/
@[simp] def Process.unaccounted : Process → Nat
  | .checking .. | .evicting .. | .rejecting .. | .closing _ => 1
  | .releasing rest _ _ => rest.length + 1
  | .getting | .creating _ | .filling .. | .emptying .. => 0

/-- How many places an operation reserved for resources that are being made. -/
@[simp] def Process.reserved : Process → Nat
  | .creating _ => 1
  | _ => 0

/-- An operation that takes one off the number of open resources when it goes on. -/
def Process.Subtracts : Process → Prop
  | .evicting .. | .rejecting .. | .closing _ | .releasing .. => True
  | .creating work => ∃ e, work.outcome = .error e
  | .getting | .checking .. | .filling .. | .emptying .. => False

/-- The resources that were found not fit to be kept. -/
def Stats.evictions (s : Stats) : Nat := s.evictedIdle + s.evictedUnhealthy + s.overflow

@[simp] theorem idle_forget (p : Pool) (reason? : Option Disposal) :
    (p.forget reason?).idle = p.idle := rfl

@[simp] theorem opened_forget (p : Pool) (reason? : Option Disposal) :
    (p.forget reason?).opened = p.opened - 1 := rfl

@[simp] theorem created_forget (p : Pool) (reason? : Option Disposal) :
    (p.forget reason?).stats.created = p.stats.created := by
  rcases reason? with _ | (_ | _ | _ | _) <;> rfl

@[simp] theorem destroyed_forget (p : Pool) (reason? : Option Disposal) :
    (p.forget reason?).stats.destroyed = p.stats.destroyed + 1 := by
  rcases reason? with _ | (_ | _ | _ | _) <;> rfl

theorem evictions_forget (p : Pool) (reason? : Option Disposal) :
    (p.forget reason?).stats.evictions + p.stats.destroyed ≤
      p.stats.evictions + (p.forget reason?).stats.destroyed := by
  rcases reason? with _ | (_ | _ | _ | _) <;> simp only [forget, Stats.evictions] <;> omega

namespace Scenario

/-- The operation on the pool that a process is. -/
def Process.operation? : Process → Option Pool.Process
  | .operation p => some p
  | _ => none

/-- The resources out of the queue that a process answers for. -/
def Process.unaccounted (p : Process) : Nat := measure? Pool.Process.unaccounted p.operation?

/-- The places that a process reserved. -/
def Process.reserved (p : Process) : Nat := measure? Pool.Process.reserved p.operation?

/-- A process that takes one off the number of open resources when it goes on. -/
def Process.Subtracts (p : Process) : Prop := ∃ o, p.operation? = some o ∧ o.Subtracts

@[simp] theorem Process.subtracts_operation (p : Pool.Process) :
    (Process.operation p).Subtracts ↔ p.Subtracts :=
  ⟨fun ⟨_, ho, h⟩ => Option.some.inj ho ▸ h, fun h => ⟨p, rfl, h⟩⟩

@[simp] theorem Process.not_subtracts_action (a : Action) : ¬ (Process.action a).Subtracts :=
  fun ⟨_, ho, _⟩ => nomatch ho

@[simp] theorem Process.unaccounted_operation (p : Pool.Process) :
    (Process.operation p).unaccounted = p.unaccounted := rfl

@[simp] theorem Process.reserved_operation (p : Pool.Process) :
    (Process.operation p).reserved = p.reserved := rfl

@[simp] theorem Process.unaccounted_action (a : Action) : (Process.action a).unaccounted = 0 := rfl

@[simp] theorem Process.reserved_action (a : Action) : (Process.action a).reserved = 0 := rfl

theorem Process.IsAside.operation?_eq_none {p : Process} (h : p.IsAside) : p.operation? = none := by
  cases p with
  | operation => cases h
  | action | checking | asleep => rfl

theorem Process.IsAside.unaccounted {p : Process} (h : p.IsAside) : p.unaccounted = 0 := by
  rw [Process.unaccounted, h.operation?_eq_none, measure?_none]

theorem Process.IsAside.reserved {p : Process} (h : p.IsAside) : p.reserved = 0 := by
  rw [Process.reserved, h.operation?_eq_none, measure?_none]

theorem Process.IsAside.not_subtracts {p : Process} (h : p.IsAside) : ¬ p.Subtracts := by
  rintro ⟨o, ho, -⟩
  rw [h.operation?_eq_none] at ho
  cases ho

/-- The resources that are idle or in the hands of users. -/
def World.kept (w : World) : Nat := w.inner.pool.idle.length + w.held.length

theorem World.length_held_handIn {w : World} {id : Nat} (h : id ∈ w.held) :
    (w.handIn id).held.length + 1 = w.held.length := by
  rw [held_handIn, List.length_erase_of_mem h]
  exact Nat.sub_add_cancel (List.length_pos_of_mem h)

/-! ## The books over a deed -/

variable {now : Instant} {w w' : World} {p : Process} {next? : Option Process}
  {out? : Option Outcome} {count : Nat} {rest : List Idle}

theorem Drains.pool (h : Drains now w count rest w' next? out?) : w'.inner.pool = w.inner.pool := by
  cases h <;> rfl

theorem Drains.held (h : Drains now w count rest w' next? out?) : w'.held = w.held := by
  cases h <;> rfl

theorem Drains.kept (h : Drains now w count rest w' next? out?) : w'.kept = w.kept := by
  rw [World.kept, World.kept, h.pool, h.held]

theorem Drains.unaccounted (h : Drains now w count rest w' next? out?) :
    measure? Process.unaccounted next? = rest.length := by
  cases h <;> rfl

theorem Drains.reserved (h : Drains now w count rest w' next? out?) :
    measure? Process.reserved next? = 0 := by
  cases h <;> rfl

/-- What a deed takes from what is idle or held, it adds to what operations answer
for, and the other way round, up to what it opens and gives up. -/
theorem Deed.opened (h : Deed now w p w' next? out?)
    (hle : p.unaccounted + p.reserved ≤ w.inner.pool.opened) :
    w'.inner.pool.opened + (p.unaccounted + p.reserved) + w.kept =
      w.inner.pool.opened +
        (measure? Process.unaccounted next? + measure? Process.reserved next?) + w'.kept := by
  cases h with
  | aside hp hw hnext _ =>
    rw [measure?_eq_zero_of_aside (fun _ => Process.IsAside.unaccounted) hnext,
      measure?_eq_zero_of_aside (fun _ => Process.IsAside.reserved) hnext,
      hp.unaccounted, hp.reserved, World.kept, World.kept, hw.pool, hw.held]
  | stored hheld | rejected hheld | surrendered hheld =>
    have hlength := World.length_held_handIn hheld
    simp [World.kept, Pool.enqueue] at *
    omega
  | released _ hdrains =>
    rw [hdrains.unaccounted, hdrains.reserved, hdrains.kept, hdrains.pool]
    simp [World.kept]
    omega
  | drained hdrains =>
    rw [hdrains.unaccounted, hdrains.reserved, hdrains.kept, hdrains.pool]
    simp [World.kept] at *
    omega
  | _ => simp [World.kept, *] at * <;> omega

/-- What a deed counts as made or gives up, it counts as open or destroyed, up to
the places that operations have reserved. -/
theorem Deed.created (h : Deed now w p w' next? out?)
    (hle : p.unaccounted + p.reserved ≤ w.inner.pool.opened) :
    w'.inner.pool.stats.created + measure? Process.reserved next? +
        (w.inner.pool.opened + w.inner.pool.stats.destroyed) =
      w.inner.pool.stats.created + p.reserved +
        (w'.inner.pool.opened + w'.inner.pool.stats.destroyed) := by
  cases h with
  | aside hp hw hnext _ =>
    rw [measure?_eq_zero_of_aside (fun _ => Process.IsAside.reserved) hnext, hp.reserved, hw.pool]
  | released _ hdrains =>
    rw [hdrains.reserved, hdrains.pool]
    simp
  | drained hdrains =>
    rw [hdrains.reserved, hdrains.pool]
    simp at *
    omega
  | _ => simp [Pool.enqueue] at * <;> omega

/-- Nothing counts as found unfit that does not count as destroyed. -/
theorem Deed.evictions (h : Deed now w p w' next? out?) :
    w'.inner.pool.stats.evictions + w.inner.pool.stats.destroyed ≤
      w.inner.pool.stats.evictions + w'.inner.pool.stats.destroyed := by
  cases h with
  | aside _ hw _ _ => exact Nat.le_of_eq (by rw [hw.pool])
  | evicted | disposed | closed => exact evictions_forget _ _
  | released _ hdrains => rw [hdrains.pool]; exact Nat.le_refl _
  | drained hdrains => rw [hdrains.pool]; exact evictions_forget _ _
  | _ => exact Nat.le_refl _

/-- A deed takes one off the number of open resources, or nothing. -/
theorem Deed.subtracts (h : Deed now w p w' next? out?)
    (hle : p.unaccounted + p.reserved ≤ w.inner.pool.opened) :
    (p.Subtracts → w'.inner.pool.opened + 1 = w.inner.pool.opened) ∧
      (¬ p.Subtracts → w.inner.pool.opened ≤ w'.inner.pool.opened) := by
  cases h with
  | aside hp hw _ _ => simp [hp.not_subtracts, hw.pool]
  | released _ hdrains => simp [hdrains.pool]
  | drained hdrains =>
    rw [hdrains.pool]
    simp [Pool.Process.Subtracts] at *
    omega
  | made hout | unmade hout => simp [Pool.Process.Subtracts, hout] at * <;> omega
  | _ => simp [Pool.Process.Subtracts, Pool.enqueue] at * <;> omega

/-! ## The books along a run -/

variable {s s' : Use} {c : Choice Process}

/-- A system in which everything that counts as open is idle, held, answered for or
reserved, and is what was made and not destroyed. -/
structure Balanced (s : Use) : Prop where
  opened : s.world.inner.pool.opened =
    s.world.kept + s.tally Process.unaccounted + s.tally Process.reserved
  created : s.world.inner.pool.stats.created + s.tally Process.reserved =
    s.world.inner.pool.opened + s.world.inner.pool.stats.destroyed
  evictions : s.world.inner.pool.stats.evictions ≤ s.world.inner.pool.stats.destroyed

theorem Balanced.share_le (h : Balanced s) {i : Nat} {p : Process} (hp : s.process? i = some p) :
    p.unaccounted + p.reserved ≤ s.world.inner.pool.opened := by
  have hunaccounted := System.le_tally Process.unaccounted hp
  have hreserved := System.le_tally Process.reserved hp
  rw [h.opened]
  omega

theorem Fresh.balanced (h : Fresh s) : Balanced s := by
  refine ⟨?_, ?_, ?_⟩
  · rw [h.opened, World.kept, h.length_idle, h.held, System.tally_of_running_eq_nil _ h.quiet,
      System.tally_of_running_eq_nil _ h.quiet]
    rfl
  · rw [h.opened, h.stats, System.tally_of_running_eq_nil _ h.quiet]
  · rw [h.stats]
    exact Nat.le_refl _

/-- What counts as open keeps its distance from what is idle, held, answered for and
reserved. -/
theorem Doing.opened (h : Doing s c s') {n : Nat}
    (hopened : s.world.inner.pool.opened =
      s.world.kept + s.tally Process.unaccounted + s.tally Process.reserved + n) :
    s'.world.inner.pool.opened =
      s'.world.kept + s'.tally Process.unaccounted + s'.tally Process.reserved + n := by
  cases h with
  | @deed i p w' next? out? hp hdeed =>
    have hunaccounted := System.tally_advance Process.unaccounted hp w' next? []
    have hreserved := System.tally_advance Process.reserved hp w' next? []
    -- What the process answers for is open, so nothing is cut off at zero.
    have hle : p.unaccounted + p.reserved ≤ s.world.inner.pool.opened := by
      have hleUnaccounted := System.le_tally Process.unaccounted hp
      have hleReserved := System.le_tally Process.reserved hp
      omega
    have hdeedOpened := hdeed.opened hle
    simp only [List.map_nil, List.sum_nil] at hunaccounted hreserved
    rw [System.world_advance]
    omega
  | start hadmitted =>
    obtain ⟨a, rfl, -⟩ := hadmitted.action
    rwa [System.world_add, System.tally_add, System.tally_add]
  | pass t => exact hopened

theorem Balanced.step (hb : Balanced s) (h : Doing s c s') : Balanced s' := by
  refine ⟨h.opened (n := 0) hb.opened, ?_, ?_⟩
  · cases h with
    | @deed i p w' next? out? hp hdeed =>
      have hcreated := hdeed.created (hb.share_le hp)
      have hreserved := System.tally_advance Process.reserved hp w' next? []
      have hbcreated := hb.created
      simp only [List.map_nil, List.sum_nil] at hreserved
      rw [System.world_advance]
      omega
    | start hadmitted =>
      obtain ⟨a, rfl, -⟩ := hadmitted.action
      rw [System.world_add, System.tally_add]
      exact hb.created
    | pass t => exact hb.created
  · cases h with
    | deed _ hdeed =>
      have hevictions := hdeed.evictions
      have hbevictions := hb.evictions
      rw [System.world_advance]
      omega
    | start | pass => exact hb.evictions

theorem Fresh.run_balanced (h : Fresh s) (hrun : Run turn Admitted s s') : Balanced s' :=
  h.preserves Balanced.step h.balanced hrun

/-- A choice lets an operation go on that takes one off the number of open
resources. -/
def Subtracting (s : Use) : Choice Process → Prop
  | .turn i => ∃ p, s.process? i = some p ∧ p.Subtracts
  | .start _ | .pass _ => False

/-- What is taken off the number of open resources was there, and nothing else makes
the number smaller. -/
theorem Balanced.subtracting (hb : Balanced s) (h : Doing s c s') :
    (Subtracting s c → s'.world.inner.pool.opened + 1 = s.world.inner.pool.opened) ∧
      (¬ Subtracting s c → s.world.inner.pool.opened ≤ s'.world.inner.pool.opened) := by
  cases h with
  | deed hp hdeed =>
    obtain ⟨hsubtracts, hkeeps⟩ := hdeed.subtracts (hb.share_le hp)
    refine ⟨?_, fun hnot => hkeeps fun hsub => hnot ⟨_, hp, hsub⟩⟩
    rintro ⟨q, hq, hsub⟩
    cases hp.symm.trans hq
    exact hsubtracts hsub
  | start | pass => exact ⟨False.elim, fun _ => Nat.le_refl _⟩

end Scenario

end Leasehold.Pool
