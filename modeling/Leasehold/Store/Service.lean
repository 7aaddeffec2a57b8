import Leasehold.Simulation.Turn
import Leasehold.Store.Faulty
import Leasehold.Store.Traced
import Leasehold.Time.Face

/-!
# Serving requests over time

A service stands between its callers and a store.  Calls take time: each kind of request has a
latency that passes before the request reaches the store, and a refresh may take longer still inside
the store.  Every finished call goes into a journal.

What a caller asks for is an errand.  Most errands are a single call.  If the store is asked for
the first four kinds of request only, an errand to compare and delete is up to two calls, the
second made when the first has found the right value.  If the store is traced, the errand writes a
record when it is over.

An errand is a process, so the calls of several errands may overlap in any way.
-/

namespace Leasehold

open Simulation Log

/-- The two kinds of store that run here. -/
inductive Store where
  /-- A store in memory. -/
  | memory (m : Memory)
  /-- A store that fails on demand. -/
  | faulty (f : Faulty)
deriving DecidableEq, Repr

namespace Store

/-- What the store keeps. -/
def contents : Store → Memory
  | memory m => m
  | faulty f => f.memory

/-- The store with other contents. -/
def withContents (s : Store) (m : Memory) : Store :=
  match s with
  | memory _ => memory m
  | faulty f => faulty { f with memory := m }

/-- Takes a request. -/
def receive (s : Store) (now : Instant) (r : Request) : Arrival × Store :=
  match s with
  | memory m =>
      let (a, m) := m.answer now r
      (.answered a, memory m)
  | faulty f =>
      let (a, f) := f.receive now r
      (a, faulty f)

/-- Ends a refresh that took its time.  In a store in memory no refresh does. -/
def finishRefresh (s : Store) (now : Instant) (k : String) (ttl : Duration) (fails : Bool) :
    Answer × Store :=
  match s with
  | memory m =>
      let (a, m) := m.refresh now k ttl
      (a, memory m)
  | faulty f =>
      let (a, f) := f.finishRefresh now k ttl fails
      (a, faulty f)

end Store

/-- How errands reach the store. -/
inductive Wrap where
  /-- Every errand is a call. -/
  | direct
  /-- Comparing and deleting takes a call to get and a call to delete. -/
  | primitive
  /-- Every errand is a call, and is traced. -/
  | traced
deriving DecidableEq, Repr

/-- A call that was answered. -/
structure Finished where
  /-- What was asked. -/
  request : Request
  /-- When the call began. -/
  started : Instant
  /-- When it was answered. -/
  finished : Instant
  /-- What was answered. -/
  answer : Answer
deriving DecidableEq, Repr

/-- A store and all that stands before it. -/
structure Service where
  /-- The store. -/
  store : Store
  /-- How errands reach it. -/
  wrap : Wrap := .direct
  /-- The clock of the store. -/
  face : Face := .simulated
  /-- The time a request takes to reach the store. -/
  latency : Request.Kind → Duration := fun _ => .zero
  /-- The calls that were answered, in order. -/
  journal : List Finished := []

/-! ## Calls -/

/-- How far a call has come. -/
inductive Stage where
  /-- The request is on its way and arrives at the given instant. -/
  | approaching (due? : Option Instant)
  /-- A refresh is under way inside the store. -/
  | refreshing (k : String) (ttl : Duration) (due? : Option Instant) (fails : Bool)
deriving DecidableEq, Repr

/-- A call that is not yet answered. -/
structure Call where
  /-- What is asked. -/
  request : Request
  /-- When the call began. -/
  started : Instant
  /-- How far it has come. -/
  stage : Stage
deriving DecidableEq, Repr

namespace Service

/-- Begins a call. -/
def call (s : Service) (now : Instant) (r : Request) : Call :=
  ⟨r, now, .approaching (now.after? (s.latency r.kind))⟩

/-- Writes the end of a call into the journal. -/
def finish (s : Service) (now : Instant) (c : Call) (a : Answer) : Service :=
  { s with journal := s.journal ++ [⟨c.request, c.started, now, a⟩] }

/-- The turns of a call. -/
def callTurn : Behaviour Service Call Answer := fun now s c =>
  let reading := s.face.read now
  match c.stage with
  | .approaching due? =>
      if isDue now due? then
        match s.store.receive reading c.request with
        | (.answered a, store) => .ends (({ s with store }).finish now c a) a [] []
        | (.delayed k ttl latency fails, store) =>
            .moves { s with store }
              { c with stage := .refreshing k ttl (now.after? latency) fails } []
      else .waits due?
  | .refreshing k ttl due? fails =>
      if isDue now due? then
        let (a, store) := s.store.finishRefresh reading k ttl fails
        .ends (({ s with store }).finish now c a) a [] []
      else .waits due?

end Service

/-! ## Errands -/

/-- What a caller wants from a store, and how far it has come. -/
inductive Errand where
  /-- A single call. -/
  | single (call : Call)
  /-- The call that reads the key before it is deleted. -/
  | comparing (k v : String) (call : Call)
  /-- The call that deletes the key after it was read. -/
  | deleting (call : Call)
deriving DecidableEq, Repr

namespace Service

/-- Begins an errand. -/
def errand (s : Service) (now : Instant) (r : Request) : Errand :=
  match s.wrap, r with
  | .primitive, .deleteIfEquals k v => .comparing k v (s.call now (.get k))
  | _, r => .single (s.call now r)

/-- What a traced store writes about an answer. -/
def traceOf (s : Service) (r : Request) (a : Answer) : List Record :=
  match s.wrap with
  | .traced => [r.trace a]
  | _ => []

/-- Goes on after the key of a comparison was read. -/
def compared (s : Service) (now : Instant) (k v : String) (a : Answer) :
    Turn Service Errand Answer :=
  match a with
  | .value (some w) =>
      if w = v then .moves s (.deleting (s.call now (.delete k))) []
      else .ends s (.removed false) [] []
  | .value none => .ends s (.removed false) [] []
  | a => .ends s a [] []

/-- The answer to a comparison whose key was to be deleted. -/
def deleted : Answer → Answer
  | .done => .removed true
  | a => a

/-- The turns of an errand. -/
def turn : Behaviour Service Errand Answer := fun now s e =>
  match e with
  | .single c =>
      (callTurn now s c).within id .single fun s a => .ends s a [] (s.traceOf c.request a)
  | .comparing k v c =>
      (callTurn now s c).within id (.comparing k v) fun s a => s.compared now k v a
  | .deleting c => (callTurn now s c).within id .deleting fun s a => .ends s (deleted a) [] []

end Service

end Leasehold
