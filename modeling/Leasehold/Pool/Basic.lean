import Leasehold.Pool.Config
import Leasehold.Pool.Supply

/-!
# The state of a pool

A pool keeps idle resources in a queue, the one returned first in front, each with the instant at
which it came back.  It counts the resources that are open: idle, handed out, or in between.  It
also counts what happened so far.  A pool that was released is closed for good.
-/

namespace Leasehold

open Log

namespace Pool

/-- An idle resource. -/
structure Idle where
  /-- The resource. -/
  id : Nat
  /-- When it came into the queue. -/
  returnedAt : Instant
deriving DecidableEq, Repr

/-- What happened to a pool so far.  The counts have no bound: a pool at which something happens
`2 ^ 64` times, which a 64-bit counter does not count, is outside the model. -/
structure Stats where
  /-- How many resources were made. -/
  created : Nat := 0
  /-- How many were destroyed. -/
  destroyed : Nat := 0
  /-- How many of them had been idle for too long. -/
  evictedIdle : Nat := 0
  /-- How many of them were not sound. -/
  evictedUnhealthy : Nat := 0
  /-- How many of them found the queue full. -/
  overflow : Nat := 0
deriving DecidableEq, Repr

/-- Why the pool destroys a resource. -/
inductive Disposal where
  /-- It was idle for too long. -/
  | idleTimeout
  /-- It is not sound. -/
  | unhealthy
  /-- The queue is full. -/
  | overflow
  /-- The pool is closed. -/
  | closed
deriving DecidableEq, Repr

/-- The name of a reason in the log. -/
def Disposal.name : Disposal → String
  | .idleTimeout => "IdleTimeout"
  | .unhealthy => "Unhealthy"
  | .overflow => "Overflow"
  | .closed => "Closed"

/-- Why an operation on a pool failed. -/
inductive PoolError where
  /-- The settings are not valid. -/
  | config (fault : Config.Fault)
  /-- The first resources could not be made. -/
  | fill (e : ResourceError)
  /-- The pool is closed. -/
  | closed
  /-- As many resources are open as there may be. -/
  | exhausted (max : Nat)
  /-- The supply failed. -/
  | resource (e : ResourceError)
deriving DecidableEq, Repr

/-- The text of a pool error. -/
def PoolError.message : PoolError → String
  | .config fault => "invalid pool config: " ++ fault.message
  | .fill e => "failed to fill pool: " ++ e.message
  | .closed => "pool is closed"
  | .exhausted max => "pool exhausted: " ++ toString max ++ " resources already open"
  | .resource e => "resource error: " ++ e.message

end Pool

/-- A pool of resources. -/
structure Pool where
  /-- The settings. -/
  config : Pool.Config := {}
  /-- The idle resources, the one returned first in front. -/
  idle : List Pool.Idle := []
  /-- How many resources are open.  There is no bound to that: `2 ^ 64` open resources, which a 64-bit
  counter does not count, are outside the model. -/
  opened : Nat := 0
  /-- Whether the pool was released. -/
  closed : Bool := false
  /-- What happened so far. -/
  stats : Pool.Stats := {}
deriving DecidableEq, Repr

namespace Pool

instance : Inhabited Pool := ⟨{}⟩

/-- The most resources that the pool keeps idle. -/
def capacity (p : Pool) : Nat := p.config.max.toNat

/-- Whether an idle resource was idle for too long at a reading of the pool's clock. -/
def isStale (p : Pool) (reading : Instant) (e : Idle) : Bool :=
  p.config.evictsIdle && decide (p.config.idleTimeout < reading.since e.returnedAt)

/-- Whether another resource may be opened. -/
def mayOpen (p : Pool) : Bool :=
  match p.config.checkout with
  | .lenient => true
  | .bounded => decide (p.opened < p.capacity)

/-- Counts a resource that was destroyed. -/
def forget (p : Pool) (reason? : Option Disposal) : Pool :=
  let s := { p.stats with destroyed := p.stats.destroyed + 1 }
  { p with
    opened := p.opened - 1
    stats := match reason? with
      | some .idleTimeout => { s with evictedIdle := s.evictedIdle + 1 }
      | some .unhealthy => { s with evictedUnhealthy := s.evictedUnhealthy + 1 }
      | some .overflow => { s with overflow := s.overflow + 1 }
      | some .closed => s
      | none => s }

/-- Puts a resource at the end of the queue. -/
def enqueue (p : Pool) (id : Nat) (reading : Instant) : Pool :=
  { p with idle := p.idle ++ [⟨id, reading⟩] }

/-! ## Records -/

/-- What the pool tells when a resource could not be destroyed. -/
def disposalRecords (reason : Disposal) : Job.Outcome → List Record
  | .ok _ => []
  | .error e =>
      [{ level := .warn, message := "resource destroy failed"
         fields := [("error", .text e.message), ("reason", .text reason.name)] }]

/-- The name of a policy in the log. -/
def Checkout.label : Checkout → String
  | .lenient => "Lenient"
  | .bounded => "Bounded"

end Pool

end Leasehold
