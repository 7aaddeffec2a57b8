import Leasehold.Proofs.Pool.Custody

/-!
# Filling a pool

A pool is filled before anybody can use it.  Meanwhile the supply may be told to
fail, or to work again, at any time.

`Filling` says how far the filling has come.  Every step keeps it
(`IsFilled.step`), and when nothing is under way any more, the pool is `Fresh`, or
everything that was made for it was destroyed in order
(`fresh_or_emptied_of_run`).  So the runs of a pool that begin in a fresh system are
those of the pools that there are.
-/

namespace Leasehold.Pool.Scenario

open Simulation

variable {now : Instant} {w w' : World} {p : Process} {next? : Option Process}
  {out? : Option Outcome} {s s' : Use} {c : Choice Process}

/-! ## What is done to fill a pool -/

/-- What is done with the resources of a pool that cannot be filled: the next one is
destroyed, or there is no pool. -/
inductive Empties (now : Instant) (w : World) (e : ResourceError) :
    List Idle → World → Option Process → Option Outcome → Prop where
  | empty : Empties now w e [] w none (some (.result (.failed (.fill e))))
  | next {r rest} :
      Empties now w e (r :: rest) (w.assign now (.destroy r.id))
        (some (.operation (.emptying rest e (w.task now (.destroy r.id))))) none

/-- What is done on a turn to fill a pool: the world before it, the operation, the
world after it, how it goes on, and what comes of it if it ends. -/
inductive Fills (now : Instant) (w : World) :
    Pool.Process → World → Option Process → Option Outcome → Prop where
  /-- The last resource was made. -/
  | filled {made work id} :
      work.outcome = .ok id →
      Fills now w (.filling 0 made work)
        (w.withPool { w.inner.pool with
          idle := (⟨id, w.reading now⟩ :: made).reverse, opened := made.length + 1
          stats := { created := made.length + 1 } }) none (some (.result .ok))
  /-- A resource was made, and others are still to be. -/
  | more {left made work id} :
      work.outcome = .ok id →
      Fills now w (.filling (left + 1) made work) (w.assign now .create)
        (some (.operation (.filling left (⟨id, w.reading now⟩ :: made) (w.task now .create)))) none
  /-- A resource could not be made. -/
  | broken {left made work e w' next? out?} :
      work.outcome = .error e → Empties now w e made.reverse w' next? out? →
      Fills now w (.filling left made work) w' next? out?
  /-- A resource was destroyed, and others are still to be. -/
  | emptied {rest e work w' next? out?} :
      Empties now w e rest w' next? out? → Fills now w (.emptying rest e work) w' next? out?

theorem leaves_empty {R : World → Option Process → Option Outcome → Prop} {e : ResourceError}
    {records : List Log.Record} {rest : List Idle}
    (h : ∀ w' next? out?, Empties now w e rest w' next? out? → R w' next? out?) :
    Leaves R (operationTurn w (Pool.empty w.inner now e records rest)) := by
  cases rest with
  | nil => exact ⟨rfl, h _ _ _ .empty⟩
  | cons r rest => exact h _ _ _ .next

theorem filling_fills {left : Nat} {made : List Idle} {work : Work} :
    Leaves (Fills now w (.filling left made work))
      (turn now w (.operation (.filling left made work))) := by
  rw [turn, Pool.turn]
  refine leaves_job ?_
  cases hout : work.outcome with
  | ok id =>
    cases left with
    | zero => exact ⟨rfl, .filled hout⟩
    | succ left => exact Fills.more hout
  | error e => exact leaves_empty fun _ _ _ => .broken hout

theorem emptying_fills {rest : List Idle} {e : ResourceError} {work : Work} :
    Leaves (Fills now w (.emptying rest e work))
      (turn now w (.operation (.emptying rest e work))) := by
  rw [turn, Pool.turn]
  exact leaves_job (leaves_empty fun _ _ _ => .emptied)

/-- A process that does nothing with the pool goes on so. -/
theorem Deed.of_aside (h : Deed now w p w' next? out?) (hp : p.IsAside) :
    w.Alike w' ∧ ∀ q, next? = some q → q.IsAside := by
  cases h with
  | aside _ hw hnext _ => exact ⟨hw, hnext⟩
  | unheld ha => obtain rfl | rfl := ha <;> cases hp
  | _ => cases hp

/-! ## How far the filling has come -/

/-- A pool that holds what was made for it. -/
structure Full (config : Config) (w : World) : Prop where
  pool : ∃ idle, w.inner.pool =
    { config, idle, opened := config.initial.toNat, stats := { created := config.initial.toNat } }
  idle : w.idleIds = w.made
  made : w.inner.supply.made = config.initial.toNat
  destroyed : w.destroyed = []

/-- How far the filling of a pool has come, with the operation that fills it. -/
inductive Filling (config : Config) (w : World) : Option Process → Prop where
  /-- So many resources are still to be made, after one that is being made. -/
  | making {left made work} :
      w.inner.pool = { config } → w.made = made.reverse.map (·.id) ++ work.product →
      left + made.length + 1 = config.initial.toNat → w.destroyed = [] →
      Filling config w (some (.operation (.filling left made work)))
  /-- What was made is being destroyed. -/
  | emptying {rest e work} :
      w.inner.pool = { config } → w.made = w.destroyed ++ rest.map (·.id) →
      Filling config w (some (.operation (.emptying rest e work)))
  /-- What was made is destroyed. -/
  | emptied : w.inner.pool = { config } → w.made = w.destroyed → Filling config w none
  /-- The pool is filled. -/
  | filled : Full config w → Filling config w none

variable {config : Config}

theorem World.length_made (w : World) : w.made.length = w.inner.supply.made := List.length_range'

theorem Filling.alike {p? : Option Process} (h : Filling config w p?) (hw : w.Alike w') :
    Filling config w' p? := by
  have hmade : w'.made = w.made := hw.made_eq
  have hdestroyed : w'.destroyed = w.destroyed := hw.destroyed
  cases h with
  | making hpool hids hcount hnone =>
    exact .making (hw.pool.trans hpool) (hmade.trans hids) hcount (hdestroyed.trans hnone)
  | emptying hpool hids =>
    exact .emptying (hw.pool.trans hpool) (by rw [hmade, hdestroyed, hids])
  | emptied hpool hids => exact .emptied (hw.pool.trans hpool) (by rw [hmade, hdestroyed, hids])
  | filled hfull =>
    obtain ⟨⟨idle, hpool⟩, hidle, hcount, hnone⟩ := hfull
    refine .filled ⟨⟨idle, hw.pool.trans hpool⟩, ?_, hw.made.trans hcount, hdestroyed.trans hnone⟩
    rw [World.idleIds, hw.pool, hmade]
    exact hidle

theorem Empties.filling {e : ResourceError} {rest : List Idle}
    (h : Empties now w e rest w' next? out?) (hpool : w.inner.pool = { config })
    (hids : w.made = w.destroyed ++ rest.map (·.id)) :
    Filling config w' next? ∧ w'.held = w.held := by
  cases h with
  | empty => exact ⟨.emptied hpool (by rw [hids]; simp), rfl⟩
  | next => exact ⟨.emptying hpool (by simp [hids]), rfl⟩

/-- What is done to fill a pool brings it further. -/
theorem Fills.filling {p : Pool.Process} (h : Fills now w p w' next? out?)
    (hw : Filling config w (some (.operation p))) :
    Filling config w' next? ∧ w'.held = w.held := by
  cases hw with
  | @making left made work hpool hids hcount hnone =>
    cases h with
    | @filled _ _ id hout =>
      rw [Work.product_of_ok hout] at hids
      have hlength := congrArg List.length hids
      simp only [World.length_made, List.length_append, List.length_map, List.length_reverse,
        List.length_singleton] at hlength
      refine ⟨.filled ⟨⟨(⟨id, w.reading now⟩ :: made).reverse, ?_⟩, ?_, ?_, hnone⟩, rfl⟩
      · rw [World.pool_withPool, hpool, ← hcount, Nat.zero_add]
      · rw [World.made_withPool, hids]
        simp [World.idleIds]
      · exact hlength.trans (by omega)
    | @more left _ _ id hout =>
      rw [Work.product_of_ok hout] at hids
      refine ⟨.making hpool ?_ ?_ ?_, rfl⟩
      · rw [World.made_assign_create, hids]
        simp
      · rw [List.length_cons]
        omega
      · rw [World.destroyed_assign_create, hnone]
    | broken hout hempties =>
      refine hempties.filling hpool ?_
      rw [hids, Work.product_of_error hout, hnone, List.append_nil, List.nil_append]
  | emptying hpool hids =>
    cases h with
    | emptied hempties => exact hempties.filling hpool hids

/-! ## Filling along a run -/

/-- While a pool is filled, others start only what does nothing with it. -/
def Attended : Rule World Process := fun _ c _ =>
  match c with
  | .start p => p.IsAside
  | .turn _ => True
  | .pass _ => True

/-- The process of a number fills the pool or is over, and all others do nothing with
the pool. -/
structure IsFilled (config : Config) (i : Nat) (s : Use) : Prop where
  filling : Filling config s.world (s.process? i)
  held : s.world.held = []
  aside : ∀ j p, j ≠ i → s.process? j = some p → p.IsAside
  lt : i < s.processes.length

variable {i j : Nat}

theorem IsFilled.advance_self (h : IsFilled config i s) (hfilling : Filling config w' next?)
    (hheld : w'.held = s.world.held) : IsFilled config i (s.advance i w' next? []) where
  filling := by rwa [System.process?_advance_self h.lt]
  held := hheld.trans h.held
  aside j q hne hq := by
    obtain ⟨-, hq⟩ | ⟨rfl, -⟩ | ⟨k, -, hnone⟩ := System.process?_advance_cases hq
    · exact h.aside j q hne hq
    · exact absurd rfl hne
    · cases hnone
  lt := by simpa using h.lt

theorem IsFilled.advance_of_ne (h : IsFilled config i s) (hne : j ≠ i) (hw : s.world.Alike w')
    (hnext : ∀ q, next? = some q → q.IsAside) : IsFilled config i (s.advance j w' next? []) where
  filling := by
    rw [System.process?_advance_of_ne h.lt hne.symm]
    exact h.filling.alike hw
  held := hw.held.trans h.held
  aside k q hk hq := by
    obtain ⟨-, hq⟩ | ⟨-, hq⟩ | ⟨l, -, hnone⟩ := System.process?_advance_cases hq
    · exact h.aside k q hk hq
    · exact hnext q hq
    · cases hnone
  lt := by simpa using h.lt

/-- Whoever has a turn, the filling goes on. -/
theorem IsFilled.leaves (h : IsFilled config i s) (hp : s.process? j = some p) :
    Leaves (fun w' next? _ => IsFilled config i (s.advance j w' next? []))
      (turn s.now s.world p) := by
  -- The turn is one of the operation that fills the pool, or of somebody aside.
  by_cases hne : j = i
  · subst hne
    have hfilling := h.filling
    rw [hp] at hfilling
    have hstep : ∀ (q : Pool.Process), p = .operation q → ∀ w' next? out?,
        Fills s.now s.world q w' next? out? → IsFilled config j (s.advance j w' next? []) := by
      rintro q rfl w' next? out? hfills
      obtain ⟨hw', hheld⟩ := hfills.filling hfilling
      exact h.advance_self hw' hheld
    cases hfilling with
    | making => exact filling_fills.mono (hstep _ rfl)
    | emptying => exact emptying_fills.mono (hstep _ rfl)
  · have haside := h.aside j p hne hp
    refine (turn_isDeed haside.fit).mono fun w' next? out? hdeed => ?_
    obtain ⟨hw, hnext⟩ := hdeed.of_aside haside
    exact h.advance_of_ne hne hw hnext

theorem IsFilled.step (h : IsFilled config i s) (hstep : Simulation.Step turn s c s')
    (hrule : Attended s c s') : IsFilled config i s' := by
  have hlength := hstep.length_le
  cases hstep with
  | moves hp hturn =>
    have hleaves := h.leaves hp
    rwa [hturn] at hleaves
  | ends hp hturn =>
    have hleaves := h.leaves hp
    rw [hturn] at hleaves
    obtain ⟨rfl, hfilled⟩ := hleaves
    exact hfilled
  | start p =>
    refine ⟨?_, h.held, fun j q hne hq => ?_, ?_⟩
    · rw [System.process?_add_of_lt h.lt]
      exact h.filling
    · obtain hq | ⟨-, rfl⟩ := System.process?_add_cases hq
      · exact h.aside j q hne hq
      · exact hrule
    · exact Nat.lt_of_lt_of_le h.lt hlength
  | pass => exact ⟨h.filling, h.held, h.aside, h.lt⟩

/-- A pool that is not filled yet, and a supply that has made nothing. -/
structure Unfilled (s : Use) : Prop where
  valid : s.world.inner.pool.config.fault? = none
  pool : s.world.inner.pool = { config := s.world.inner.pool.config }
  made : s.world.inner.supply.made = 0
  destroyed : s.world.inner.supply.destroyed = []
  held : s.world.held = []
  quiet : s.running = []

/-- The operation that fills a pool, when it was begun. -/
def filler (s : Use) : Process :=
  .operation (.filling (s.world.inner.pool.config.initial.toNat - 1) []
    (s.world.task s.now .create))

/-- The system when the filling was begun. -/
def begun (s : Use) : Use := ({ s with world := s.world.assign s.now .create } : Use).add (filler s)

theorem Config.initial_pos {config : Config} (h : config.fault? = none) :
    0 < config.initial.toNat := by
  unfold Config.fault? at h
  split at h
  · cases h
  · split at h
    · cases h
    next hzero =>
      refine Nat.pos_of_ne_zero fun heq => hzero (.inl ?_)
      exact UInt64.toNat_inj.mp heq

/-- To fill a pool with valid settings begins with a first resource. -/
theorem fill_begins (h : s.world.inner.pool.config.fault? = none) :
    operationTurn s.world (Pool.fill s.world.inner s.now) =
      .moves (s.world.assign s.now .create) (filler s) [] := by
  have hpos := Config.initial_pos h
  rw [Pool.fill, filler]
  split
  next hzero => omega
  next n hn =>
    rw [hn]
    rfl

theorem Unfilled.isFilled (h : Unfilled s) :
    IsFilled s.world.inner.pool.config s.processes.length (begun s) where
  filling := by
    have hpos := Config.initial_pos h.valid
    have hmade : s.world.made = [] := by rw [World.made, h.made]; rfl
    have hself : (begun s).process? s.processes.length = some (filler s) :=
      System.process?_add_self { s with world := s.world.assign s.now .create } (filler s)
    rw [hself]
    refine .making h.pool ?_ ?_ ?_
    · rw [begun, System.world_add, World.made_assign_create, hmade]
      rfl
    · rw [List.length_nil]
      omega
    · rw [begun, System.world_add, World.destroyed_assign_create]
      exact h.destroyed
  held := h.held
  aside j q hne hq := by
    obtain hq | ⟨hj, -⟩ := System.process?_add_cases hq
    · have hrunning := System.mem_running hq
      change q ∈ s.running at hrunning
      rw [h.quiet] at hrunning
      cases hrunning
    · exact absurd hj hne
  lt := by simp [begun, System.add]

theorem Full.fresh (h : Full config s.world) (hvalid : config.fault? = none)
    (hheld : s.world.held = []) (hquiet : s.running = []) : Fresh s := by
  obtain ⟨⟨idle, hpool⟩, hidle, hmade, hnone⟩ := h
  rw [World.idleIds, World.made, hmade] at hidle
  exact
    { valid := by rw [hpool]; exact hvalid
      idle := by rw [hidle, hpool]
      opened := by rw [hpool]
      unclosed := by rw [hpool]
      stats := by rw [hpool]
      made := by rw [hmade, hpool]
      destroyed := hnone
      held := hheld
      quiet := hquiet }

/-- A pool that was filled is fresh, or everything that was made for it is destroyed,
in the order in which it was made. -/
theorem fresh_or_emptied_of_run (h : Unfilled s) (hrun : Run turn Attended (begun s) s')
    (hquiet : s'.running = []) :
    Fresh s' ∨ (s'.world.inner.pool = s.world.inner.pool ∧ s'.world.destroyed = s'.world.made) := by
  obtain ⟨hfilling, hheld, -, -⟩ := hrun.preserves IsFilled.step h.isFilled
  have hover : s'.process? s.processes.length = none := by
    cases hp : s'.process? s.processes.length with
    | none => rfl
    | some p =>
      have hrunning := System.mem_running hp
      rw [hquiet] at hrunning
      cases hrunning
  rw [hover] at hfilling
  cases hfilling with
  | emptied hpool hids => exact .inr ⟨hpool.trans h.pool.symm, hids.symm⟩
  | filled hfull => exact .inl (hfull.fresh h.valid hheld hquiet)

end Leasehold.Pool.Scenario
