import Leasehold.Lock.Process

/-!
# Trying out locks

A scenario is a series of steps on some lock managers that share one store.  A step is an action in
the foreground, an action that is started in the background, or a wait for such an action.  A
background action may begin after a delay.

After each step the background runs as far as it can without time passing.  Then the scenario
reports the result, the time, the calls to the store that were answered since the last report, and
for each key that a step has named its value, its time to live and which managers renew it.
-/

namespace Leasehold.Lock.Scenario

open Simulation

/-- A step of a scenario. -/
inductive Step where
  /-- Do something and wait for it. -/
  | act (a : Action)
  /-- Start something in the background under a name, after a delay. -/
  | spawn (name : String) (a : Action) (delay : Duration)
  /-- Wait for something in the background. -/
  | join (name : String)
deriving Repr

/-- What comes of a step. -/
inductive StepResult where
  /-- The result of an action, if it did not wait for ever. -/
  | result (r? : Option Result)
  /-- The result of a background action, and when it ended. -/
  | joined (r : Result) (finished : Instant)
  /-- No background action of that name is left. -/
  | noSuchTask
deriving Repr

/-- What is reported about a key. -/
structure KeyReport where
  /-- The key. -/
  key : String
  /-- Its live value. -/
  value? : Option String
  /-- The time it has left. -/
  ttl? : Option Duration
  /-- Which managers renew it. -/
  renewing : List Bool
deriving Repr

/-- What is reported after a step. -/
structure Report where
  /-- What came of the step. -/
  result : StepResult
  /-- The time at the end of the step. -/
  time : Instant
  /-- The calls answered since the last report. -/
  calls : List Finished
  /-- The keys named so far, the one named first in front. -/
  keys : List KeyReport
  /-- The records written since the last report. -/
  log : List Log.Record

/-- The order of answered calls in a report: by the end, by the beginning, and by their words. -/
def callBefore (a b : Finished) : Bool :=
  if a.finished ≠ b.finished then decide (a.finished < b.finished)
  else if a.started ≠ b.started then decide (a.started < b.started)
  else decide (¬ b.request.words < a.request.words)

/-- Locks under trial. -/
structure Trial where
  /-- The processes and the world they share. -/
  machine : Machine World Process Result
  /-- The keys that steps have named. -/
  keys : List String := []

namespace Trial

/-- Carries out a step. -/
def perform (limit : Nat) (t : Trial) : Step → StepResult × Trial
  | .act a =>
      let (machine, r?) := t.machine.perform turn limit limit (.action a)
      (.result r?, { machine, keys := StoreScenario.addKey t.keys a.key? })
  | .spawn name a delay =>
      (.result (some .ok), {
        machine := t.machine.start name (.later (t.machine.now.after? delay) a)
        keys := StoreScenario.addKey t.keys a.key? })
  | .join name =>
      match t.machine.join turn limit limit name with
      | (machine, some f) => (.joined f.result f.instant, { t with machine })
      | (machine, none) => (.noSuchTask, { t with machine })

/-- What is reported about a key. -/
def keyReport (m : Machine World Process Result) (k : String) : KeyReport where
  key := k
  value? := m.world.service.value? m.now k
  ttl? := m.world.service.ttl? m.now k
  renewing := m.world.managers.map (·.renewing k)

/-- Carries out a step and reports. -/
def report (limit : Nat) (t : Trial) (step : Step) : Report × Trial :=
  let (result, t) := t.perform limit step
  let (log, m) := (t.machine.settle turn limit limit).takeLog
  let calls := m.world.service.journal
  let m := { m with world := { m.world with service := { m.world.service with journal := [] } } }
  ({ result
     time := m.now
     calls := calls.mergeSort callBefore
     keys := t.keys.map (keyReport m)
     log }, { t with machine := m })

end Trial

/-- Tries out locks. -/
def run (limit : Nat) (world : World) (steps : List Step) : List Report :=
  (steps.foldl (fun (acc : List Report × Trial) step =>
    let (r, t) := acc.2.report limit step
    (acc.1 ++ [r], t)) ([], { machine := { world } })).1

end Leasehold.Lock.Scenario
