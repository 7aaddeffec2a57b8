import Leasehold.Store.Memory

/-!
# A store that fails on demand

A store in memory with a record of all requests and three switches.  When the store is unavailable
every request fails.  When refreshing fails, the other requests still work.  A refresh can also take
its time: the switches are read when it comes in, and the deadline moves when the time is over.

Asking for a value or a time to live directly is no request: it is not recorded and does not fail.
-/

namespace Leasehold

/-- A store in memory that records requests and fails on demand. -/
structure Faulty where
  /-- What the store keeps. -/
  memory : Memory := {}
  /-- All requests so far, in order. -/
  requests : List Request := []
  /-- Whether every request fails. -/
  unavailable : Bool := false
  /-- Whether every refresh fails. -/
  refreshFails : Bool := false
  /-- How long a refresh takes. -/
  refreshLatency : Duration := .zero
deriving DecidableEq, Repr

/-- What becomes of a request when it reaches a store. -/
inductive Arrival where
  /-- It is answered at once. -/
  | answered (a : Answer)
  /-- It is a refresh that takes a time; whether it will fail is settled. -/
  | delayed (k : String) (ttl latency : Duration) (fails : Bool)
deriving DecidableEq, Repr

namespace Faulty

/-- How often a key was to be refreshed. -/
def refreshCount (f : Faulty) (k : String) : Nat :=
  f.requests.countP fun r => match r with
    | .refresh key _ => key == k
    | _ => false

/-- The end of a refresh. -/
def finishRefresh (f : Faulty) (now : Instant) (k : String) (ttl : Duration) (fails : Bool) :
    Answer × Faulty :=
  if fails then (.failed (.command "fake refresh failure"), f)
  else
    let (a, memory) := f.memory.refresh now k ttl
    (a, { f with memory })

/-- Serves a request that cannot be delayed. -/
def answer (f : Faulty) (now : Instant) (r : Request) : Answer × Faulty :=
  let (a, memory) := f.memory.answer now r
  (a, { f with memory })

/-- Takes a request. -/
def receive (f : Faulty) (now : Instant) (r : Request) : Arrival × Faulty :=
  let f := { f with requests := f.requests ++ [r] }
  if f.unavailable then (.answered (.failed (.connection "fake store unavailable")), f)
  else
    match r with
    | .refresh k ttl =>
        if f.refreshLatency.isZero then
          let (a, f) := f.finishRefresh now k ttl f.refreshFails
          (.answered a, f)
        else (.delayed k ttl f.refreshLatency f.refreshFails, f)
    | r =>
        let (a, f) := f.answer now r
        (.answered a, f)

end Faulty

end Leasehold
