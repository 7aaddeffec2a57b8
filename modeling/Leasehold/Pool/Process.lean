import Leasehold.Pool.Basic

/-!
# Using a pool

A pool hands out resources and takes them back.

* A pool is filled when it is made.  If one of the first resources cannot be made, those made before
  are destroyed again and there is no pool.
* Getting a resource takes the idle ones from the front.  One that was idle for too long, or that is
  not sound, is destroyed and the next one tried.  With no idle resource left a new one is made,
  within the policy of the pool.  Its place is reserved before it is made.
* A resource that is put back goes to the end of the queue, or is destroyed if the queue is full or
  the pool closed.
* A resource that is closed is destroyed instead of being put back.
* Releasing the pool closes it and destroys all idle resources.

Each of these is a process that waits for the supply.  What it does between two waits happens at
once, and other processes see the pool as it is while a resource is in the hands of one of them.
-/

namespace Leasehold.Pool

open Simulation Log

/-- What the processes share. -/
structure World where
  /-- The pool. -/
  pool : Pool
  /-- Where its resources come from. -/
  supply : Supply
  /-- The clock of the pool. -/
  face : Face := .manual .epoch

/-- An operation on a pool and how far it has come. -/
inductive Process where
  /-- The pool is filled: so many resources are still to be made, those made come last first, and
  one is being made. -/
  | filling (left : Nat) (made : List Idle) (work : Work)
  /-- The pool cannot be filled: a resource is being destroyed, and others are still to be. -/
  | emptying (rest : List Idle) (e : ResourceError) (work : Work)
  /-- A resource is wanted, and the queue is looked at next. -/
  | getting
  /-- An idle resource is looked at. -/
  | checking (e : Idle) (work : Work)
  /-- An idle resource is destroyed, and the queue is looked at again. -/
  | evicting (reason : Disposal) (work : Work)
  /-- A resource is made. -/
  | creating (work : Work)
  /-- A resource came back that cannot be kept. -/
  | rejecting (reason : Disposal) (work : Work)
  /-- A resource came back to be destroyed. -/
  | closing (work : Work)
  /-- The pool is released: a resource is being destroyed, and others are still to be. -/
  | releasing (rest : List Idle) (count : Nat) (work : Work)

/-- What comes of an operation. -/
inductive Result where
  /-- It was carried out. -/
  | ok
  /-- A resource. -/
  | resource (id : Nat)
  /-- It failed. -/
  | failed (e : PoolError)
deriving DecidableEq, Repr

namespace World

/-- The world with another state of the supply. -/
def withSupply (w : World) (supply : Supply) : World := { w with supply }

/-- The world with another state of the pool. -/
def withPool (w : World) (pool : Pool) : World := { w with pool }

end World

/-- Gives the supply a job and waits for it. -/
def await (w : World) (now : Instant) (job : Job) (next : Work → Process) (records : List Record) :
    Turn World Process Result :=
  let (work, supply) := w.supply.give now job
  .moves (w.withSupply supply) (next work) records

/-! ## Filling -/

/-- The end of a pool that was filled. -/
def filled (w : World) (made : List Idle) : Turn World Process Result :=
  let n := made.length
  let pool := { w.pool with idle := made.reverse, opened := n, stats := { created := n } }
  .ends (w.withPool pool) .ok []
    [{ level := .info, message := "pool filled"
       fields := [("initial", .number w.pool.config.initial.toNat),
         ("max", .number w.pool.capacity), ("checkout", .text w.pool.config.checkout.label)] }]

/-- Destroys what was made for a pool that cannot be filled. -/
def empty (w : World) (now : Instant) (e : ResourceError) (records : List Record) :
    List Idle → Turn World Process Result
  | [] => .ends w (.failed (.fill e)) [] records
  | r :: rest => await w now (.destroy r.id) (.emptying rest e) records

/-- What follows when a resource was made for a pool, or was not. -/
def fillStep (w : World) (now : Instant) (left : Nat) (made : List Idle) (outcome : Job.Outcome) :
    Turn World Process Result :=
  match outcome with
  | .ok id =>
      let made := ⟨id, w.face.read now⟩ :: made
      match left with
      | 0 => filled w made
      | left + 1 => await w now .create (.filling left made) []
  | .error e =>
      empty w now e
        [{ level := .warn, message := "pool fill failed"
           fields := [("created", .number made.length), ("error", .text e.message)] }]
        made.reverse

/-- The record about a resource that could not be destroyed after a failed fill. -/
def emptyRecords : Job.Outcome → List Record
  | .ok _ => []
  | .error e =>
      [{ level := .warn, message := "destroy after failed fill"
         fields := [("error", .text e.message)] }]

/-- Begins to fill a pool with valid settings. -/
def fill (w : World) (now : Instant) : Turn World Process Result :=
  match w.pool.config.initial.toNat with
  | 0 => filled w []
  | n + 1 => await w now .create (.filling n []) []

/-! ## Getting -/

/-- Makes a new resource, within the policy of the pool. -/
def openNew (w : World) (now : Instant) : Turn World Process Result :=
  if w.pool.mayOpen then
    await (w.withPool { w.pool with opened := w.pool.opened + 1 }) now .create .creating []
  else
    .ends w (.failed (.exhausted w.pool.capacity)) []
      [{ level := .debug, message := "pool exhausted"
         fields := [("max", .number w.pool.capacity)] }]

/-- Looks at the queue for somebody who wants a resource. -/
def get (w : World) (now : Instant) : Turn World Process Result :=
  if w.pool.closed then .ends w (.failed .closed) [] []
  else
    match w.pool.idle with
    | [] => openNew w now
    | e :: rest =>
        let w := w.withPool { w.pool with idle := rest }
        if w.pool.isStale (w.face.read now) e then
          await w now (.destroy e.id) (.evicting .idleTimeout)
            [{ level := .debug, message := "evicting idle resource" }]
        else if w.supply.checksLiveness then await w now (.check e.id) (.checking e) []
        else .ends w (.resource e.id) [] []

/-- What follows when an idle resource was looked at. -/
def checked (w : World) (now : Instant) (e : Idle) (outcome : Job.Outcome) :
    Turn World Process Result :=
  match outcome with
  | .ok _ => .ends w (.resource e.id) [] []
  | .error cause =>
      await w now (.destroy e.id) (.evicting .unhealthy)
        [{ level := .warn, message := "evicting unhealthy resource"
           fields := [("error", .text cause.message)] }]

/-- What follows when a new resource was made, or was not. -/
def created (w : World) (outcome : Job.Outcome) : Turn World Process Result :=
  let p := w.pool
  match outcome with
  | .ok id =>
      let stats := { p.stats with created := p.stats.created + 1 }
      .ends (w.withPool { p with stats }) (.resource id) []
        [{ level := .debug, message := "created resource", fields := [("open", .number p.opened)] }]
  | .error e =>
      .ends (w.withPool { p with opened := p.opened - 1 }) (.failed (.resource e)) []
        [{ level := .warn, message := "resource create failed"
           fields := [("error", .text e.message)] }]

/-! ## Giving back -/

/-- Takes a resource back. -/
def put (w : World) (now : Instant) (id : Nat) : Turn World Process Result :=
  if w.pool.closed then await w now (.destroy id) (.rejecting .closed) []
  else if w.pool.capacity ≤ w.pool.idle.length then
    await w now (.destroy id) (.rejecting .overflow)
      [{ level := .debug, message := "idle queue full; destroying resource"
         fields := [("max", .number w.pool.capacity)] }]
  else .ends (w.withPool (w.pool.enqueue id (w.face.read now))) .ok [] []

/-- What somebody is told whose resource could not be kept. -/
def rejection : Disposal → Result
  | .closed => .failed .closed
  | _ => .ok

/-- Destroys a resource that was handed out. -/
def close (w : World) (now : Instant) (id : Nat) : Turn World Process Result :=
  await w now (.destroy id) .closing []

/-- What somebody is told whose resource was destroyed. -/
def closeResult : Job.Outcome → Result
  | .ok _ => .ok
  | .error e => .failed (.resource e)

/-! ## Releasing -/

/-- Destroys the next of the resources that were idle when the pool was released. -/
def drain (w : World) (now : Instant) (count : Nat) : List Idle → Turn World Process Result
  | [] =>
      .ends w .ok []
        [{ level := .info, message := "pool released", fields := [("destroyed", .number count)] }]
  | r :: rest => await w now (.destroy r.id) (.releasing rest count) []

/-- Releases the pool. -/
def release (w : World) (now : Instant) : Turn World Process Result :=
  if w.pool.closed then .ends w .ok [] []
  else
    let idle := w.pool.idle
    drain (w.withPool { w.pool with closed := true, idle := [] }) now idle.length idle

/-! ## All turns -/

/-- The world after a resource was destroyed. -/
def World.forget (w : World) (reason? : Option Disposal) : World :=
  w.withPool (w.pool.forget reason?)

/-- The turns of every process. -/
def turn : Behaviour World Process Result := fun now w p =>
  match p with
  | .filling left made work =>
      (Supply.turn now w.supply work).within w.withSupply (.filling left made) fun w outcome =>
        fillStep w now left made outcome
  | .emptying rest e work =>
      (Supply.turn now w.supply work).within w.withSupply (.emptying rest e) fun w outcome =>
        empty w now e (emptyRecords outcome) rest
  | .getting => get w now
  | .checking e work =>
      (Supply.turn now w.supply work).within w.withSupply (.checking e) fun w outcome =>
        checked w now e outcome
  | .evicting reason work =>
      (Supply.turn now w.supply work).within w.withSupply (.evicting reason) fun w outcome =>
        .moves (w.forget (some reason)) .getting (disposalRecords reason outcome)
  | .creating work =>
      (Supply.turn now w.supply work).within w.withSupply .creating
        fun w outcome => created w outcome
  | .rejecting reason work =>
      (Supply.turn now w.supply work).within w.withSupply (.rejecting reason) fun w outcome =>
        .ends (w.forget (some reason)) (rejection reason) [] (disposalRecords reason outcome)
  | .closing work =>
      (Supply.turn now w.supply work).within w.withSupply .closing fun w outcome =>
        .ends (w.forget none) (closeResult outcome) [] []
  | .releasing rest count work =>
      (Supply.turn now w.supply work).within w.withSupply (.releasing rest count) fun w outcome =>
        (drain (w.forget (some .closed)) now count rest).after (disposalRecords .closed outcome)

end Leasehold.Pool
