import Leasehold.Simulation.Machine
import Leasehold.Store.Service

/-!
# Trying out a store

A scenario is a series of steps on one store.  A step is a request, a question that is no request,
a change of the store's switches or of the time requests take, or a wait.  After each step the
scenario reports the result, the reading of the store's clock and the time to live of every key
that a step has named so far.

Steps may also move the store's clock by hand.  It can go back, and it stops short of the largest
reading: a step that would pass it fails and leaves the clock alone.
-/

namespace Leasehold

open Simulation

/-- What can be done with a store. -/
inductive StoreAction where
  /-- Ask the store. -/
  | request (r : Request)
  /-- The live value of a key, without a request. -/
  | value (k : String)
  /-- The time a key has left, without a request. -/
  | ttl (k : String)
  /-- The number of live keys of a store in memory. -/
  | size
  /-- The requests that reached a store that records them. -/
  | requests
  /-- How often a key was to be refreshed. -/
  | refreshCount (k : String)
  /-- Forget the requests so far. -/
  | clearRequests
  /-- Make every request fail, or work again. -/
  | unavailable (on : Bool)
  /-- Make every refresh fail, or work again. -/
  | refreshFails (on : Bool)
  /-- Let a refresh take a time inside the store. -/
  | refreshLatency (d : Duration)
  /-- Let a kind of request take a time to reach the store. -/
  | latency (kind : Request.Kind) (d : Duration)
  /-- Wait. -/
  | sleep (d : Duration)
deriving Repr

/-- The key that an action names. -/
def StoreAction.key? : StoreAction → Option String
  | .request r => some r.key
  | .value k => some k
  | .ttl k => some k
  | .refreshCount k => some k
  | _ => none

/-- What comes of an action. -/
inductive StoreResult where
  /-- It was carried out. -/
  | ok
  /-- The store answered. -/
  | answer (a : Answer)
  /-- A text, if there is one. -/
  | text (s? : Option String)
  /-- A time, if there is one. -/
  | time (d? : Option Duration)
  /-- The number of live keys, if the store tells it. -/
  | size (n? : Option Nat)
  /-- A number, if the store counts. -/
  | count (n? : Option Nat)
  /-- The recorded requests, if the store records them. -/
  | requests (rs? : Option (List Request))
deriving DecidableEq, Repr

/-- An action on a store and how far it has come. -/
inductive StoreTask where
  /-- It has not begun. -/
  | action (a : StoreAction)
  /-- An errand is under way. -/
  | errand (e : Errand)
  /-- It waits for an instant. -/
  | asleep (due? : Option Instant)
deriving Repr

namespace Service

/-- The live value of a key. -/
def value? (s : Service) (now : Instant) (k : String) : Option String :=
  s.store.contents.value? (s.face.read now) k

/-- The time a key has left. -/
def ttl? (s : Service) (now : Instant) (k : String) : Option Duration :=
  s.store.contents.ttl? (s.face.read now) k

/-- Changes the switches of a store that has some. -/
def alterFaulty (s : Service) (f : Faulty → Faulty) : Service :=
  match s.store with
  | .memory _ => s
  | .faulty x => { s with store := .faulty (f x) }

/-- Looks at a store that has switches. -/
def faulty? (s : Service) : Option Faulty :=
  match s.store with
  | .memory _ => none
  | .faulty f => some f

/-- The effect and the result of an action that takes no time. -/
def act (s : Service) (now : Instant) : StoreAction → Service × StoreResult
  | .value k =>
      let m := s.store.contents.purge (s.face.read now) k
      ({ s with store := s.store.withContents m }, .text (s.value? now k))
  | .ttl k => (s, .time (s.ttl? now k))
  | .size =>
      match s.store with
      | .memory m =>
          let m := m.purgeAll (s.face.read now)
          ({ s with store := .memory m }, .size (some m.entries.size))
      | .faulty _ => (s, .size none)
  | .requests => (s, .requests (s.faulty?.map (·.requests)))
  | .refreshCount k => (s, .count (s.faulty?.map (·.refreshCount k)))
  | .clearRequests => (s.alterFaulty ({ · with requests := [] }), .ok)
  | .unavailable on => (s.alterFaulty ({ · with unavailable := on }), .ok)
  | .refreshFails on => (s.alterFaulty ({ · with refreshFails := on }), .ok)
  | .refreshLatency d => (s.alterFaulty ({ · with refreshLatency := d }), .ok)
  | .latency kind d =>
      ({ s with latency := fun j => if j = kind then d else s.latency j }, .ok)
  | .request _ | .sleep _ => (s, .ok)

/-- The turns of an action. -/
def taskTurn : Behaviour Service StoreTask StoreResult := fun now s t =>
  match t with
  | .action (.request r) => .moves s (.errand (s.errand now r)) []
  | .action (.sleep d) => .moves s (.asleep (now.after? d)) []
  | .action a =>
      let (s, result) := s.act now a
      .ends s result [] []
  | .errand e => (s.turn now e).within id .errand fun s a => .ends s (.answer a) [] []
  | .asleep due? => if isDue now due? then .ends s .ok [] [] else .waits due?

end Service

/-! ## Scenarios -/

namespace StoreScenario

/-- A step of a scenario. -/
inductive Step where
  /-- Do something with the store. -/
  | act (a : StoreAction)
  /-- Take another handle on the same store. -/
  | share
  /-- Move the store's clock on. -/
  | advance (d : Duration)
  /-- Set the store's clock to a time after the start. -/
  | setClock (d : Duration)
deriving Repr

/-- What comes of a step. -/
inductive StepResult where
  /-- The result of an action, if it did not wait for ever. -/
  | result (r? : Option StoreResult)
  /-- The clock cannot read so late. -/
  | clockOverflow
deriving Repr

/-- What is reported after a step. -/
structure Report where
  /-- What came of the step. -/
  result : StepResult
  /-- The reading of the store's clock since the start. -/
  time : Duration
  /-- The time each named key has left, the key named first in front. -/
  ttls : List (String × Option Duration)
  /-- The records written since the last step. -/
  log : List Log.Record

/-- A store under trial. -/
structure Trial where
  /-- The store and its service. -/
  machine : Machine Service StoreTask StoreResult
  /-- The clock that is moved by hand. -/
  hand : Instant := .epoch
  /-- The keys that steps have named. -/
  keys : List String := []

/-- Adds a key to a list of different keys. -/
def addKey (keys : List String) (k? : Option String) : List String :=
  match k? with
  | some k => if k ∈ keys then keys else keys ++ [k]
  | none => keys

namespace Trial

/-- Sets the clock that is moved by hand, if it can read so late. -/
def setHand (t : Trial) (reading? : Option Instant) : StepResult × Trial :=
  match reading? with
  | none => (.clockOverflow, t)
  | some reading =>
      let world := { t.machine.world with face := t.machine.world.face.set reading }
      (.result (some .ok), { t with hand := reading, machine := { t.machine with world } })

/-- Carries out a step. -/
def perform (limit : Nat) (t : Trial) : Step → StepResult × Trial
  | .act a =>
      let (machine, r?) := t.machine.perform Service.taskTurn limit limit (.action a)
      (.result r?, { t with machine, keys := addKey t.keys a.key? })
  | .share => (.result (some .ok), t)
  | .advance d => t.setHand (t.hand.after? d)
  | .setClock d => t.setHand (Instant.epoch.after? d)

/-- Carries out a step and reports. -/
def report (limit : Nat) (t : Trial) (step : Step) : Report × Trial :=
  let (result, t) := t.perform limit step
  let (log, machine) := t.machine.takeLog
  let now := machine.now
  ({ result
     time := (machine.world.face.read now).sinceEpoch
     ttls := t.keys.map fun k => (k, machine.world.ttl? now k)
     log }, { t with machine })

end Trial

/-- Tries out a store. -/
def run (limit : Nat) (service : Service) (steps : List Step) : List Report :=
  (steps.foldl (fun (acc : List Report × Trial) step =>
    let (r, t) := acc.2.report limit step
    (acc.1 ++ [r], t)) ([], { machine := { world := service } })).1

end StoreScenario

end Leasehold
