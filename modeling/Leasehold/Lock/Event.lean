import Leasehold.Lock.Config
import Leasehold.Log
import Leasehold.Store.Request

/-!
# What a lock manager tells

The errors of lock operations, and the events that a lock manager logs.
-/

namespace Leasehold.Lock

open Log

/-- Why a lock was not acquired. -/
inductive LockError where
  /-- The time was over, or the attempt was cancelled, before the key was free. -/
  | timedOut (key : String)
  /-- The lease is shorter than a second. -/
  | shortLease (lease : Duration)
  /-- The store failed. -/
  | store (e : StoreError)
deriving DecidableEq, Repr

/-- The text of a lock error. -/
def LockError.message : LockError → String
  | .timedOut key => "timed out seizing lock " ++ key
  | .shortLease lease => shortLeaseMessage lease
  | .store e => "store error: " ++ e.message

/-- What happens to a lock. -/
inductive Event where
  /-- It was acquired, at an attempt with the given number if attempts are counted. -/
  | acquired (key owner : String) (attempts? : Option Nat)
  /-- Somebody else holds it. -/
  | contended (key : String) (attempts? : Option Nat)
  /-- The store failed in an attempt to acquire it. -/
  | attemptFailed (key : String) (attempts : Nat) (e : StoreError)
  /-- No further attempt is made. -/
  | gaveUp (key : String) (attempts : Nat)
  /-- It was released. -/
  | released (key owner : String)
  /-- It was not released, since somebody else holds it or nobody does. -/
  | notHeld (key owner : String)
  /-- It may not have been released, since the store failed. -/
  | releaseFailed (key owner : String) (e : StoreError)
  /-- Its lease is so long that a clock cannot read when to renew it. -/
  | outOfRange (key : String) (interval : Duration)
  /-- Renewing it was cancelled. -/
  | stopped (key : String) (cycle : Nat)
  /-- Its lease was renewed. -/
  | renewed (key : String) (cycle : Nat)
  /-- The store failed to renew its lease. -/
  | renewalFailed (key : String) (cycle : Nat) (e : StoreError)
  /-- Its lease was renewed as often as allowed. -/
  | spent (key : String) (budget : Nat)
deriving DecidableEq, Repr

/-- The field with the number of attempts, if attempts are counted. -/
def attemptsField : Option Nat → List (String × Value)
  | some n => [("attempts", .number n)]
  | none => []

/-- The record of an event. -/
def Event.record : Event → Record
  | .acquired key owner attempts? =>
      { level := .info, message := "lock acquired"
        fields := [("key", .text key), ("owner", .text owner)] ++ attemptsField attempts? }
  | .contended key attempts? =>
      { level := .debug, message := "lock contended"
        fields := [("key", .text key)] ++ attemptsField attempts? }
  | .attemptFailed key attempts e =>
      { level := .warn, message := "lock attempt failed"
        fields := [("key", .text key), ("attempts", .number attempts), ("error", .text e.message)] }
  | .gaveUp key attempts =>
      { level := .warn, message := "gave up seizing lock"
        fields := [("key", .text key), ("attempts", .number attempts)] }
  | .released key owner =>
      { level := .info, message := "lock released"
        fields := [("key", .text key), ("owner", .text owner)] }
  | .notHeld key owner =>
      { level := .debug, message := "lock not held by owner"
        fields := [("key", .text key), ("owner", .text owner)] }
  | .releaseFailed key owner e =>
      { level := .warn, message := "lock release failed"
        fields := [("key", .text key), ("owner", .text owner), ("error", .text e.message)] }
  | .outOfRange key interval =>
      { level := .debug, message := "renewal interval out of range"
        fields := [("key", .text key), ("interval", .text interval.brief)] }
  | .stopped key cycle =>
      { level := .debug, message := "renewal stopped"
        fields := [("key", .text key), ("cycle", .number cycle)] }
  | .renewed key cycle =>
      { level := .debug, message := "lease renewed"
        fields := [("key", .text key), ("cycle", .number cycle)] }
  | .renewalFailed key cycle e =>
      { level := .warn, message := "lease renewal failed"
        fields := [("key", .text key), ("cycle", .number cycle), ("error", .text e.message)] }
  | .spent key budget =>
      { level := .debug, message := "renewal budget spent"
        fields := [("key", .text key), ("max_renewals", .number budget)] }

end Leasehold.Lock
