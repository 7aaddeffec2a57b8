import Leasehold.Lock.Event
import Leasehold.Lock.Registry
import Leasehold.Store.Scenario
import Leasehold.Token

/-!
# Locks

A lock is a key in a store whose value is the token of its holder.  It is acquired by writing the
token under the key, which works only while the key has no value, and the lease is the time to live
of the entry.  While the lock is held a renewal runs beside the holder.

* An acquisition makes an attempt at once and one after each backoff.  An attempt fails if the key
  has a value or the store fails.  Between two attempts it watches three things, in this order:
  whether it was cancelled, whether its deadline has come, and whether the backoff is over.  A
  timeout of zero is no deadline, and neither is one that a clock cannot read.
* A renewal refreshes the key at the multiples of its interval after the acquisition, as often as
  its manager allows.  A refresh that fails counts.  If a refresh takes so long that multiples pass
  by, the first of them is made up for at once and the others are left out.  A renewal is cancelled
  only between two refreshes.
* A release stops the renewal that runs for the same key and owner, and then deletes the key if its
  value is the owner's token.

Acquisitions, renewals and releases are processes: each turn ends where the process has to wait for
the store or for time to pass.  The lock managers, the store and the cancellation tokens are the
world they share.
-/

namespace Leasehold.Lock

open Simulation Log

/-- A lock that was acquired, as its holder is told. -/
structure Lease where
  /-- The key. -/
  key : String
  /-- The token of the holder. -/
  owner : String
  /-- The time to live that was written. -/
  duration : Duration
  /-- The time between two renewals. -/
  renewalInterval : Duration
  /-- When the lock was acquired. -/
  acquiredAt : Instant
deriving DecidableEq, Repr

/-- What the processes share. -/
structure World where
  /-- The store. -/
  service : Service
  /-- The lock managers. -/
  managers : List Manager := []
  /-- The cancellation tokens. -/
  tokens : Cancellation := {}
  /-- The names of cancellation tokens. -/
  names : Table Nat := ∅
  /-- Where owner tokens come from. -/
  owners : OwnerSource := .counted {}

namespace World

/-- The world with another state of the store. -/
def withService (w : World) (service : Service) : World := { w with service }

/-- A lock manager. -/
def manager (w : World) (i : Nat) : Manager := w.managers[i]?.getD {}

/-- Changes a lock manager. -/
def setManager (w : World) (i : Nat) (m : Manager) : World :=
  { w with managers := w.managers.set i m }

/-- The cancellation token of a name, which is made when the name is first used. -/
def token (w : World) (name : String) : Nat × World :=
  match w.names.find? name with
  | some token => (token, w)
  | none =>
      let (token, tokens) := w.tokens.root
      (token, { w with tokens, names := w.names.insert name token })

/-- Gives a name to a new token below that of another name. -/
def childToken (w : World) (parent name : String) : World :=
  let (above, w) := w.token parent
  let (token, tokens) := w.tokens.child above
  { w with tokens, names := w.names.insert name token }

/-- Cancels the token of a name. -/
def cancel (w : World) (name : String) : World :=
  let (token, w) := w.token name
  { w with tokens := w.tokens.cancel token }

end World

/-! ## Processes -/

/-- What somebody wants who acquires a lock. -/
structure Bid where
  /-- The lock manager that is asked. -/
  manager : Nat
  /-- The key. -/
  key : String
  /-- The token of the one who asks. -/
  owner : String
  /-- The lease in whole seconds. -/
  ttl : Duration
  /-- The token that cancels the acquisition, and the renewal after it. -/
  token : Nat
deriving DecidableEq, Repr

/-- A renewal. -/
structure Renewing where
  /-- The lock manager that started it. -/
  manager : Nat
  /-- The key. -/
  key : String
  /-- The token that stops it. -/
  token : Nat
  /-- Its number. -/
  generation : Nat
  /-- When the lock was acquired. -/
  acquiredAt : Instant
  /-- The time between two refreshes, and the time to live that each gives. -/
  interval : Duration
  /-- How many refreshes it may make. -/
  budget : Nat
deriving DecidableEq, Repr

/-- How far a renewal has come. -/
inductive RenewalStage where
  /-- It has not begun. -/
  | starting
  /-- It waits for the tick of a refresh with the given number. -/
  | waiting (cycle : Nat) (tick? : Option Instant)
  /-- A refresh is under way; the next tick is settled. -/
  | refreshing (cycle : Nat) (next? : Option Instant) (errand : Errand)
deriving DecidableEq, Repr

/-- What can be done with locks. -/
inductive Action where
  /-- Acquire a lock, with a timeout. -/
  | acquire (manager : Nat) (key owner : String) (lease timeout : Duration) (cancel : String)
  /-- Acquire a lock with a fresh token and the lease of the manager's settings. -/
  | acquireDefault (manager : Nat) (key : String) (timeout : Duration) (cancel : String)
  /-- Make a single attempt. -/
  | tryAcquire (manager : Nat) (key owner : String) (lease : Duration) (cancel : String)
  /-- Release a lock. -/
  | release (manager : Nat) (key owner : String)
  /-- Cancel a token. -/
  | cancel (name : String)
  /-- Give a name to a new token below another. -/
  | child (parent name : String)
  /-- Ask for the settings of a manager. -/
  | config (manager : Nat)
  /-- Something with the store alone. -/
  | store (a : StoreAction)
deriving Repr

/-- The key that an action names. -/
def Action.key? : Action → Option String
  | .acquire _ key .. => some key
  | .acquireDefault _ key .. => some key
  | .tryAcquire _ key .. => some key
  | .release _ key _ => some key
  | .store a => a.key?
  | .cancel _ | .child .. | .config _ => none

/-- Something that goes on with locks, and how far it has come. -/
inductive Process where
  /-- An action that has not begun. -/
  | action (a : Action)
  /-- An action that begins at an instant. -/
  | later (due? : Option Instant) (a : Action)
  /-- An acquisition that is about to make an attempt.  The attempts are counted for the log alone, and
  without a bound: an acquisition that makes `2 ^ 32` of them, which a 32-bit counter does not
  count, is outside the model. -/
  | attempting (bid : Bid) (deadline? : Option Instant) (attempts : Nat)
  /-- An acquisition that waits for the store's answer to an attempt. -/
  | asking (bid : Bid) (deadline? : Option Instant) (attempts : Nat) (errand : Errand)
  /-- An acquisition between two attempts. -/
  | resting (bid : Bid) (deadline? : Option Instant) (attempts : Nat) (due? : Option Instant)
  /-- A single attempt that waits for the store's answer. -/
  | trying (bid : Bid) (errand : Errand)
  /-- A release that waits for the store's answer. -/
  | releasing (key owner : String) (errand : Errand)
  /-- A renewal. -/
  | renewing (r : Renewing) (stage : RenewalStage)
  /-- Something with the store alone. -/
  | store (t : StoreTask)
deriving Repr

/-- What comes of an action. -/
inductive Result where
  /-- It was carried out. -/
  | ok
  /-- The lock was acquired. -/
  | lease (l : Lease)
  /-- Somebody else holds the lock. -/
  | contended
  /-- The lock was not acquired. -/
  | failed (e : LockError)
  /-- The settings of a manager. -/
  | config (c : Config)
  /-- What came of something with the store alone. -/
  | store (r : StoreResult)
deriving DecidableEq, Repr

/-! ## Acquiring -/

/-- What follows when a bid has won: the renewal is registered and started. -/
def World.hold (w : World) (now : Instant) (bid : Bid) : Lease × Process × World :=
  let interval := renewalInterval bid.ttl
  let (token, tokens) := w.tokens.child bid.token
  let m := w.manager bid.manager
  let (previous?, m') := m.register bid.key bid.owner token
  let tokens := match previous? with
    | some previous => tokens.cancel previous.token
    | none => tokens
  (⟨bid.key, bid.owner, bid.ttl, interval, now⟩,
    .renewing ⟨bid.manager, bid.key, token, m.nextGeneration, now, interval,
      m.config.maxRenewals.toNat⟩ .starting,
    ({ w with tokens }).setManager bid.manager m')

/-- The end of an acquisition that has won. -/
def won (w : World) (now : Instant) (bid : Bid) (attempts? : Option Nat) :
    Turn World Process Result :=
  let (lease, renewal, w) := w.hold now bid
  .ends w (.lease lease) [renewal] [(Event.acquired bid.key bid.owner attempts?).record]

/-- The end of an acquisition that gives up. -/
def gaveUp (w : World) (bid : Bid) (attempts : Nat) : Turn World Process Result :=
  .ends w (.failed (.timedOut bid.key)) [] [(Event.gaveUp bid.key attempts).record]

/-- The rest between two attempts. -/
def rest (w : World) (now : Instant) (bid : Bid) (deadline? : Option Instant) (attempts : Nat) :
    Process :=
  .resting bid deadline? attempts (now.after? (w.manager bid.manager).config.backoff)

/-- An acquisition after the store's answer to an attempt. -/
def attempted (w : World) (now : Instant) (bid : Bid) (deadline? : Option Instant) (attempts : Nat)
    (a : Answer) : Turn World Process Result :=
  match a with
  | .acquired => won w now bid (some attempts)
  | .failed e =>
      .moves w (rest w now bid deadline? attempts)
        [(Event.attemptFailed bid.key attempts e).record]
  | _ =>
      .moves w (rest w now bid deadline? attempts)
        [(Event.contended bid.key (some attempts)).record]

/-- A single attempt after the store's answer. -/
def tried (w : World) (now : Instant) (bid : Bid) (a : Answer) : Turn World Process Result :=
  match a with
  | .acquired => won w now bid none
  | .failed e => .ends w (.failed (.store e)) [] []
  | _ => .ends w .contended [] [(Event.contended bid.key none).record]

/-- Begins an acquisition. -/
def acquire (w : World) (now : Instant) (manager : Nat) (key owner : String)
    (lease timeout : Duration) (cancel : String) : Turn World Process Result :=
  match wholeSeconds? lease with
  | none => .ends w (.failed (.shortLease lease)) [] []
  | some ttl =>
      let (token, w) := w.token cancel
      let deadline? := if timeout.isZero then none else now.after? timeout
      .moves w (.attempting ⟨manager, key, owner, ttl, token⟩ deadline? 0) []

/-- Begins a single attempt. -/
def tryAcquire (w : World) (now : Instant) (manager : Nat) (key owner : String) (lease : Duration)
    (cancel : String) : Turn World Process Result :=
  match wholeSeconds? lease with
  | none => .ends w (.failed (.shortLease lease)) [] []
  | some ttl =>
      let (token, w) := w.token cancel
      .moves w (.trying ⟨manager, key, owner, ttl, token⟩
        (w.service.errand now (.set key owner ttl))) []

/-! ## Releasing -/

/-- Begins a release.  The renewal stops at once. -/
def release (w : World) (now : Instant) (manager : Nat) (key owner : String) :
    Turn World Process Result :=
  let (stopped?, m) := (w.manager manager).unregister key owner
  let tokens := match stopped? with
    | some r => w.tokens.cancel r.token
    | none => w.tokens
  .moves (({ w with tokens }).setManager manager m)
    (.releasing key owner (w.service.errand now (.deleteIfEquals key owner))) []

/-- What a release tells about the store's answer. -/
def releaseEvent (key owner : String) : Answer → Event
  | .removed true => .released key owner
  | .failed e => .releaseFailed key owner e
  | _ => .notHeld key owner

/-! ## Renewing -/

/-- The first multiple of an interval after `tick` that comes after `now`. -/
def nextTick? (tick now : Instant) (interval : Duration) : Option Instant :=
  let passed := (now.nanos - tick.nanos) / interval.nanos + 1
  (Duration.ofNanos? (passed * interval.nanos)).bind tick.after?

/-- The end of a renewal. -/
def renewalEnds (w : World) (r : Renewing) (e : Event) : Turn World Process Result :=
  .ends (w.setManager r.manager ((w.manager r.manager).retire r.key r.generation)) .ok [] [e.record]

/-- What a renewal tells about the store's answer to a refresh. -/
def refreshEvent (key : String) (cycle : Nat) : Answer → Event
  | .failed e => .renewalFailed key cycle e
  | _ => .renewed key cycle

/-- The turns of a renewal. -/
def renewalTurn (now : Instant) (w : World) (r : Renewing) : RenewalStage →
    Turn World Process Result
  | .starting =>
      match r.acquiredAt.after? r.interval with
      | none => renewalEnds w r (.outOfRange r.key r.interval)
      | some first => .moves w (.renewing r (.waiting 1 (some first))) []
  | .waiting cycle tick? =>
      if r.budget < cycle then renewalEnds w r (.spent r.key r.budget)
      else if w.tokens.isCancelled r.token then renewalEnds w r (.stopped r.key cycle)
      else
        match tick? with
        | none => .waits none
        | some tick =>
            if tick ≤ now then
              .moves w (.renewing r (.refreshing cycle (nextTick? tick now r.interval)
                (w.service.errand now (.refresh r.key r.interval)))) []
            else .waits (some tick)
  | .refreshing cycle next? e =>
      (w.service.turn now e).within w.withService (fun e => .renewing r (.refreshing cycle next? e))
        fun w a =>
          .moves w (.renewing r (.waiting (cycle + 1) next?)) [(refreshEvent r.key cycle a).record]

/-! ## All turns -/

/-- Begins an action. -/
def begin (now : Instant) (w : World) : Action → Turn World Process Result
  | .acquire manager key owner lease timeout cancel =>
      acquire w now manager key owner lease timeout cancel
  | .acquireDefault manager key timeout cancel =>
      let (owner, owners) := w.owners.take
      let lease := (w.manager manager).config.lease
      acquire { w with owners } now manager key owner lease timeout cancel
  | .tryAcquire manager key owner lease cancel =>
      tryAcquire w now manager key owner lease cancel
  | .release manager key owner => release w now manager key owner
  | .cancel name => .ends (w.cancel name) .ok [] []
  | .child parent name => .ends (w.childToken parent name) .ok [] []
  | .config manager => .ends w (.config (w.manager manager).config) [] []
  | .store a => .moves w (.store (.action a)) []

/-- The turns of every process. -/
def turn : Behaviour World Process Result := fun now w p =>
  match p with
  | .action a => begin now w a
  | .later due? a => if isDue now due? then .moves w (.action a) [] else .waits due?
  | .attempting bid deadline? attempts =>
      if w.tokens.isCancelled bid.token then gaveUp w bid attempts
      else
        .moves w (.asking bid deadline? (attempts + 1)
          (w.service.errand now (.set bid.key bid.owner bid.ttl))) []
  | .asking bid deadline? attempts e =>
      (w.service.turn now e).within w.withService (.asking bid deadline? attempts) fun w a =>
        attempted w now bid deadline? attempts a
  | .resting bid deadline? attempts due? =>
      if w.tokens.isCancelled bid.token ∨ isDue now deadline? then gaveUp w bid attempts
      else if isDue now due? then .moves w (.attempting bid deadline? attempts) []
      else .waits (earliest deadline? due?)
  | .trying bid e =>
      (w.service.turn now e).within w.withService (.trying bid) fun w a => tried w now bid a
  | .releasing key owner e =>
      (w.service.turn now e).within w.withService (.releasing key owner) fun w a =>
        .ends w .ok [] [(releaseEvent key owner a).record]
  | .renewing r stage => renewalTurn now w r stage
  | .store t =>
      (w.service.taskTurn now t).within w.withService .store fun w r => .ends w (.store r) [] []

end Leasehold.Lock
