import Leasehold.Pool.Process
import Leasehold.Simulation.Machine

/-!
# Trying out a pool

A scenario makes a pool and then takes a series of steps on it.  A step is an action in the
foreground, an action that is started in the background, or a wait for such an action.  The scenario
holds the resources that it was handed: an action that gives a resource back takes it out of its
hands at once.  It can also give back, or have looked at, a resource that it forged.

After each step the background runs as far as it can without time passing.  Then the scenario
reports the result, the time since the pool was made, the jobs of the supply since the last report
and the state of the pool.

The queue of a pool takes its room when the pool is made.  A room of more than `2 ^ 63 - 1` bytes
does not exist, and a pool that needs it cannot be made.
-/

namespace Leasehold.Pool.Scenario

open Simulation

/-- What can be done with a pool. -/
inductive Action where
  /-- Get a resource. -/
  | get
  /-- Put a resource back: one that is held, or a forged one. -/
  | put (id : Nat) (forged : Bool)
  /-- Have a resource destroyed: one that is held, or a forged one. -/
  | close (id : Nat) (forged : Bool)
  /-- Release the pool. -/
  | release
  /-- Have the supply look at a forged resource. -/
  | check (id : Nat)
  /-- Ask what the supply has done. -/
  | counts
  /-- Let the supply make so many more resources and no others. -/
  | failCreateAfter (n : Nat)
  /-- Let the supply make resources without a bound. -/
  | allowCreate
  /-- Make every attempt to destroy a resource fail, or work again. -/
  | failDestroy (on : Bool)
  /-- Make a resource unsound. -/
  | markUnhealthy (id : Nat)
  /-- Let a kind of job take a time. -/
  | latency (kind : Job.Kind) (d : Duration)
  /-- Move the clock of the pool on. -/
  | advance (d : Duration)
  /-- Set the clock of the pool to a time after the pool was made. -/
  | setClock (d : Duration)
  /-- Wait. -/
  | sleep (d : Duration)
deriving Repr

/-- What comes of an action. -/
inductive Outcome where
  /-- The result of an operation on the pool. -/
  | result (r : Result)
  /-- The resource is not held. -/
  | notHeld
  /-- Whether the supply looks at resources, and what it found. -/
  | checked (liveness : Bool) (outcome : Job.Outcome)
  /-- What the supply has done: the number of resources to make, and the resources to destroy and
  to look at. -/
  | counts (creates : Nat) (destroyed checked : List Nat)
  /-- The clock cannot read so late. -/
  | clockOverflow

/-- What the processes of a scenario share. -/
structure World where
  /-- The pool and its supply. -/
  inner : Pool.World
  /-- The resources in hand. -/
  held : List Nat := []
  /-- The clock that is moved by hand. -/
  hand : Instant := .epoch

/-- An action and how far it has come. -/
inductive Process where
  /-- It has not begun. -/
  | action (a : Action)
  /-- An operation on the pool is under way. -/
  | operation (p : Pool.Process)
  /-- The supply looks at a resource. -/
  | checking (work : Work)
  /-- It waits for an instant. -/
  | asleep (due? : Option Instant)

namespace World

/-- The world with another state of the pool and its supply. -/
def withInner (w : World) (inner : Pool.World) : World := { w with inner }

/-- The world with another state of the supply. -/
def withSupply (w : World) (supply : Supply) : World :=
  w.withInner (w.inner.withSupply supply)

/-- Takes a resource out of the hands of the scenario, unless it is forged. -/
def handOver? (w : World) (id : Nat) (forged : Bool) : Option World :=
  if forged then some w
  else if id ∈ w.held then some { w with held := w.held.erase id }
  else none

/-- Sets the clock of the pool. -/
def setHand (w : World) (reading? : Option Instant) : Outcome × World :=
  match reading? with
  | none => (.clockOverflow, w)
  | some reading =>
      (.result .ok,
        { w with hand := reading, inner := { w.inner with face := w.inner.face.set reading } })

/-- What the supply has done. -/
def counts (w : World) : Outcome :=
  let jobs := w.inner.supply.jobs
  .counts (jobs.count .create)
    (jobs.filterMap fun j => match j with | .destroy id => some id | _ => none)
    (jobs.filterMap fun j => match j with | .check id => some id | _ => none)

/-- The effect and the result of an action that takes no time. -/
def act (w : World) (a : Action) : Outcome × World :=
  let supply := w.inner.supply
  match a with
  | .counts => (w.counts, w)
  | .failCreateAfter n => (.result .ok, w.withSupply { supply with createsLeft? := some n })
  | .allowCreate => (.result .ok, w.withSupply { supply with createsLeft? := none })
  | .failDestroy on => (.result .ok, w.withSupply { supply with destroyFails := on })
  | .markUnhealthy id => (.result .ok, w.withSupply { supply with unsound := id :: supply.unsound })
  | .latency kind d =>
      (.result .ok,
        w.withSupply { supply with latency := fun j => if j = kind then d else supply.latency j })
  | .advance d => w.setHand (w.hand.after? d)
  | .setClock d => w.setHand (Instant.epoch.after? d)
  | _ => (.result .ok, w)

/-- The world after an operation on the pool.  A resource comes into the hands of the scenario. -/
def receive (w : World) : Result → World
  | .resource id => { w with held := id :: w.held }
  | _ => w

end World

/-- A turn of an operation on the pool. -/
def operationTurn (w : World) (t : Turn Pool.World Pool.Process Result) :
    Turn World Process Outcome :=
  t.within w.withInner .operation fun w r => .ends (w.receive r) (.result r) [] []

/-- Begins an action. -/
def begin (now : Instant) (w : World) : Action → Turn World Process Outcome
  | .get => .moves w (.operation .getting) []
  | .put id forged =>
      match w.handOver? id forged with
      | none => .ends w .notHeld [] []
      | some w => operationTurn w (Pool.put w.inner now id)
  | .close id forged =>
      match w.handOver? id forged with
      | none => .ends w .notHeld [] []
      | some w => operationTurn w (Pool.close w.inner now id)
  | .release => operationTurn w (Pool.release w.inner now)
  | .check id =>
      let (work, supply) := w.inner.supply.give now (.check id)
      .moves (w.withSupply supply) (.checking work) []
  | .sleep d => .moves w (.asleep (now.after? d)) []
  | a =>
      let (outcome, w) := w.act a
      .ends w outcome [] []

/-- The turns of every process. -/
def turn : Behaviour World Process Outcome := fun now w p =>
  match p with
  | .action a => begin now w a
  | .operation p => operationTurn w (Pool.turn now w.inner p)
  | .checking work =>
      (Supply.turn now w.inner.supply work).within w.withSupply .checking fun w outcome =>
        .ends w (.checked w.inner.supply.checksLiveness outcome) [] []
  | .asleep due? => if isDue now due? then .ends w (.result .ok) [] [] else .waits due?

/-! ## Making the pool -/

/-- The bytes that a place in the queue takes.  A place holds a resource and an instant, and this is its
size for the resources of a `Supply`, a number each.  Places for other resources differ. -/
def bytesPerPlace : Nat := 24

/-- Whether there can be a queue with so many places. -/
def hasRoom (places : Nat) : Bool := decide (places * bytesPerPlace ≤ 9223372036854775807)

/-- What comes of making a pool. -/
inductive Made where
  /-- There is a pool. -/
  | pool
  /-- There is none. -/
  | failed (e : PoolError)
  /-- There is no room for the queue. -/
  | noRoom
deriving DecidableEq, Repr

/-- A pool under trial. -/
structure Trial where
  /-- The processes and the world they share. -/
  machine : Machine World Process Outcome
  /-- When the pool was made. -/
  start : Instant := .epoch
  /-- How many jobs of the supply were reported. -/
  reported : Nat := 0

namespace Trial

/-- Makes the pool. -/
def make (limit : Nat) (t : Trial) : Made × Trial :=
  let w := t.machine.world
  match w.inner.pool.config.fault? with
  | some fault => (.failed (.config fault), t)
  | none =>
      if hasRoom w.inner.pool.capacity then
        match operationTurn w (Pool.fill w.inner t.machine.now) with
        | .moves world p records =>
            let m := { t.machine with world, log := t.machine.log ++ records }
            match m.perform turn limit limit p with
            | (machine, some (.result (.failed e))) => (.failed e, { t with machine })
            | (machine, _) => (.pool, { t with machine, start := machine.now })
        | _ => (.pool, t)
      else (.noRoom, t)

end Trial

/-! ## Steps -/

/-- A step of a scenario. -/
inductive Step where
  /-- Do something and wait for it. -/
  | act (a : Action)
  /-- Start something in the background under a name. -/
  | spawn (name : String) (a : Action)
  /-- Wait for something in the background. -/
  | join (name : String)
deriving Repr

/-- What comes of a step. -/
inductive StepResult where
  /-- The result of an action, if it did not wait for ever. -/
  | result (o? : Option Outcome)
  /-- The result of a background action, and when it ended after the pool was made. -/
  | joined (o : Outcome) (finished : Duration)
  /-- No background action of that name is left. -/
  | noSuchTask

/-- What is reported at the start and after a step. -/
structure Report where
  /-- The time since the pool was made. -/
  time : Duration
  /-- The jobs of the supply since the last report. -/
  jobs : List Job
  /-- The pool. -/
  pool : Pool
  /-- The resources in hand, in order. -/
  held : List Nat
  /-- The records written since the last report. -/
  log : List Log.Record

namespace Trial

/-- Reports, and forgets what was reported. -/
def report (t : Trial) : Report × Trial :=
  let (log, machine) := t.machine.takeLog
  let w := machine.world
  ({ time := machine.now.since t.start
     jobs := w.inner.supply.jobs.drop t.reported
     pool := w.inner.pool
     held := w.held.mergeSort
     log }, { t with machine, reported := w.inner.supply.jobs.length })

/-- Carries out a step. -/
def perform (limit : Nat) (t : Trial) : Step → StepResult × Trial
  | .act a =>
      let (machine, o?) := t.machine.perform turn limit limit (.action a)
      (.result o?, { t with machine })
  | .spawn name a =>
      (.result (some (.result .ok)), { t with machine := t.machine.start name (.action a) })
  | .join name =>
      match t.machine.join turn limit limit name with
      | (machine, some f) => (.joined f.result (f.instant.since t.start), { t with machine })
      | (machine, none) => (.noSuchTask, { t with machine })

/-- Carries out a step and reports. -/
def step (limit : Nat) (t : Trial) (s : Step) : (StepResult × Report) × Trial :=
  let (result, t) := t.perform limit s
  let (r, t) := { t with machine := t.machine.settle turn limit limit }.report
  ((result, r), t)

end Trial

/-- What a scenario reports: what came of making the pool, the state then, and the steps. -/
structure Story where
  /-- What came of making the pool. -/
  made : Made
  /-- The report when the pool was made. -/
  first : Report
  /-- The steps, if there is a pool. -/
  steps : List (StepResult × Report)

/-- Tries out a pool.  The actions `setup` come before the pool is made. -/
def run (limit : Nat) (world : Pool.World) (setup : List Action) (steps : List Step) : Story :=
  let w := setup.foldl (fun w a => (w.act a).2) { inner := world }
  let (made, t) := Trial.make limit { machine := { world := w } }
  let (first, t) := t.report
  match made with
  | .pool =>
      { made, first
        steps := (steps.foldl (fun (acc : List (StepResult × Report) × Trial) s =>
          let (r, t) := acc.2.step limit s
          (acc.1 ++ [r], t)) ([], t)).1 }
  | _ => { made, first, steps := [] }

end Leasehold.Pool.Scenario
