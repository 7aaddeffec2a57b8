import Leasehold.Log
import Leasehold.Simulation.Turn
import Leasehold.Time.Face

/-!
# Where resources come from

A supply makes resources, looks whether they are sound, and destroys them.  It numbers the
resources it makes from one on, records every job it is given, and can be told to fail: to make no
more than so many resources, to fail whenever one is destroyed, and to find certain resources
unsound.

A job takes time.  Its outcome is settled when the job comes in, and known when the time is over.  A
traced supply writes a record for each job then.
-/

namespace Leasehold

open Simulation Log

/-- Why a job failed. -/
inductive ResourceError where
  /-- No resource could be made. -/
  | create (cause : String)
  /-- The resource could not be destroyed. -/
  | destroy (cause : String)
  /-- The resource is not sound. -/
  | unhealthy (cause : String)
  /-- The system failed. -/
  | io (cause : String)
deriving DecidableEq, Repr

/-- The text of a resource error. -/
def ResourceError.message : ResourceError → String
  | .create cause => "failed to create resource: " ++ cause
  | .destroy cause => "failed to destroy resource: " ++ cause
  | .unhealthy cause => "resource unhealthy: " ++ cause
  | .io cause => "io error: " ++ cause

/-- A job for a supply. -/
inductive Job where
  /-- Make a resource. -/
  | create
  /-- Look whether a resource is sound. -/
  | check (id : Nat)
  /-- Destroy a resource. -/
  | destroy (id : Nat)
deriving DecidableEq, Repr

/-- The kinds of job. -/
inductive Job.Kind where
  | create
  | check
  | destroy
deriving DecidableEq, Repr

/-- The kind of a job. -/
def Job.kind : Job → Kind
  | create => .create
  | check _ => .check
  | destroy _ => .destroy

/-- How a supply looks after its resources. -/
inductive Inspection where
  /-- Resources are looked at before they are handed out again. -/
  | used
  /-- Resources can be looked at, but nobody does. -/
  | unused
  /-- Every resource counts as sound, and looking is no job. -/
  | absent
deriving DecidableEq, Repr

/-- A supply of resources. -/
structure Supply where
  /-- How the supply looks after its resources. -/
  inspection : Inspection := .used
  /-- The kind of resource that traces name, if the supply is traced. -/
  trace? : Option String := none
  /-- The jobs so far, in order. -/
  jobs : List Job := []
  /-- How many resources were made. -/
  made : Nat := 0
  /-- How many more resources can be made, if there is a bound. -/
  createsLeft? : Option Nat := none
  /-- Whether destroying a resource fails. -/
  destroyFails : Bool := false
  /-- The resources that are not sound. -/
  unsound : List Nat := []
  /-- The time a job takes. -/
  latency : Job.Kind → Duration := fun _ => .zero

/-- The outcome of a job: the resource it was about, or why it failed. -/
abbrev Job.Outcome := Except ResourceError Nat

/-- A job that was given to a supply.  Its outcome is settled. -/
structure Work where
  /-- The job. -/
  job : Job
  /-- What will come of it. -/
  outcome : Job.Outcome
  /-- When the outcome will be known. -/
  due? : Option Instant

namespace Supply

/-- Whether resources are looked at before they are handed out again. -/
def checksLiveness (s : Supply) : Bool := s.inspection == .used

/-- Makes a resource. -/
def create (s : Supply) : Job.Outcome × Supply :=
  let s := { s with jobs := s.jobs ++ [Job.create] }
  match s.createsLeft? with
  | some 0 => (.error (.create "fake create failure"), s)
  | some (n + 1) => (.ok (s.made + 1), { s with made := s.made + 1, createsLeft? := some n })
  | none => (.ok (s.made + 1), { s with made := s.made + 1 })

/-- Looks at a resource. -/
def check (s : Supply) (id : Nat) : Job.Outcome × Supply :=
  if s.inspection = .absent then (.ok id, s)
  else
    let s := { s with jobs := s.jobs ++ [.check id] }
    if id ∈ s.unsound then (.error (.unhealthy ("fake conn " ++ toString id)), s) else (.ok id, s)

/-- Destroys a resource. -/
def destroy (s : Supply) (id : Nat) : Job.Outcome × Supply :=
  let s := { s with jobs := s.jobs ++ [.destroy id] }
  if s.destroyFails then (.error (.destroy ("fake destroy failure for " ++ toString id)), s)
  else (.ok id, s)

/-- Settles the outcome of a job. -/
def settle (s : Supply) : Job → Job.Outcome × Supply
  | .create => s.create
  | .check id => s.check id
  | .destroy id => s.destroy id

/-- Takes a job. -/
def give (s : Supply) (now : Instant) (job : Job) : Work × Supply :=
  let (outcome, s) := s.settle job
  (⟨job, outcome, now.after? (s.latency job.kind)⟩, s)

/-! ## Traces -/

/-- The span of a job. -/
def span (name : String) : Job → Span
  | .create => ⟨.info, "resource.create", [("kind", .text name)]⟩
  | .check _ => ⟨.debug, "resource.check", [("kind", .text name)]⟩
  | .destroy _ => ⟨.info, "resource.destroy", [("kind", .text name)]⟩

/-- The level, the message and the fields of the record about an outcome. -/
def outcomeRecord (job : Job) (outcome : Job.Outcome) : Level × String × List (String × Value) :=
  match job, outcome with
  | .create, .ok _ => (.info, "resource created", [])
  | .create, .error e => (.error, "create failed", [("error", .text e.message)])
  | .check _, .ok _ => (.trace, "healthy", [])
  | .check _, .error e => (.warn, "unhealthy", [("error", .text e.message)])
  | .destroy _, .ok _ => (.info, "resource destroyed", [])
  | .destroy _, .error e => (.warn, "destroy failed", [("error", .text e.message)])

/-- What a traced supply writes when the outcome of a job is known. -/
def trace (name : String) (job : Job) (outcome : Job.Outcome) : Record :=
  let (level, message, fields) := outcomeRecord job outcome
  { level, message, fields, span? := some (span name job) }

/-- What a supply writes when the outcome of a job is known. -/
def records (s : Supply) (job : Job) (outcome : Job.Outcome) : List Record :=
  match s.trace? with
  | some name => [trace name job outcome]
  | none => []

/-- The turns of a job. -/
def turn : Behaviour Supply Work Job.Outcome := fun now s work =>
  if isDue now work.due? then .ends s work.outcome [] (s.records work.job work.outcome)
  else .waits work.due?

end Supply

end Leasehold
