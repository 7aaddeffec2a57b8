import Leasehold.Simulation.Turn

/-!
# Running processes in simulated time

A machine holds the processes that run in the background and decides who has the next turn.  Time
stands still while any process can take a step.  When all of them wait, it jumps to the first
instant at which one of them is due.

The processes that can take a step are served in the order in which they last began to wait, each
until it waits again.  One process at a time may run in the foreground; it is served first.

A simulation need not end: processes can keep each other busy at one instant, or for ever.  Every
run therefore has a `limit`.  It bounds the steps that one process takes in a row, the rounds of
service at one instant, and the number of instants.
-/

namespace Leasehold.Simulation

open Log (Record)

/-- A process in the background.  The result of a process with a name is kept. -/
structure Task (π : Type) where
  /-- The name, if the result is wanted. -/
  name? : Option String
  /-- How far it has come. -/
  process : π

/-- The result of a background process. -/
structure Finish (ρ : Type) where
  /-- The name of the process. -/
  name : String
  /-- Its result. -/
  result : ρ
  /-- When it ended. -/
  instant : Instant

/-- A world, its background processes and the time. -/
structure Machine (σ π ρ : Type) where
  /-- The simulated time. -/
  now : Instant := .epoch
  /-- What the processes share. -/
  world : σ
  /-- The processes in the background, the one that has waited longest first. -/
  tasks : List (Task π) := []
  /-- The results of named processes that nobody has asked for yet. -/
  finished : List (Finish ρ) := []
  /-- All records so far. -/
  log : List Record := []

/-- Where a process stands after it was served. -/
inductive Rest (π ρ : Type) where
  /-- It waits, at most until the given instant. -/
  | waiting (process : π) (due? : Option Instant)
  /-- It is over. -/
  | over (result : ρ)

namespace Machine

variable {σ π ρ : Type}

/-- Adds a process to the background under a name.  An older process of that name runs on without
one, and its result is not kept. -/
def start (m : Machine σ π ρ) (name : String) (p : π) : Machine σ π ρ :=
  { m with
    tasks := (m.tasks.map fun t => if t.name? = some name then ⟨none, t.process⟩ else t) ++
      [⟨some name, p⟩]
    finished := m.finished.filter (·.name != name) }

/-- Serves one process until it waits or ends. -/
def serve (turn : Behaviour σ π ρ) : Nat → Machine σ π ρ → π → Machine σ π ρ × Rest π ρ
  | 0, m, p => (m, .waiting p none)
  | fuel + 1, m, p =>
      match turn m.now m.world p with
      | .waits due? => (m, .waiting p due?)
      | .moves world next records =>
          serve turn fuel { m with world, log := m.log ++ records } next
      | .ends world result started records =>
          ({ m with world, log := m.log ++ records, tasks := m.tasks ++ started.map (⟨none, ·⟩) },
            .over result)

/-- Serves a background process that is not on the list of tasks, and puts it back if it waits. -/
def serveTask (turn : Behaviour σ π ρ) (limit : Nat) (m : Machine σ π ρ) (t : Task π) :
    Machine σ π ρ :=
  match serve turn limit m t.process with
  | (m, .waiting p _) => { m with tasks := m.tasks ++ [⟨t.name?, p⟩] }
  | (m, .over result) =>
      match t.name? with
      | none => m
      | some name => { m with finished := m.finished ++ [⟨name, result, m.now⟩] }

/-- Until when a process has to wait; `none` if it can take a step now. -/
def wait? (turn : Behaviour σ π ρ) (m : Machine σ π ρ) (t : Task π) : Option (Option Instant) :=
  match turn m.now m.world t.process with
  | .waits due? => some due?
  | .moves .. => none
  | .ends .. => none

/-- Serves every background process that can take a step, or has no result if all of them wait. -/
def round? (turn : Behaviour σ π ρ) (limit : Nat) (m : Machine σ π ρ) : Option (Machine σ π ρ) :=
  let ready := m.tasks.filter fun t => (wait? turn m t).isNone
  if ready.isEmpty then none
  else
    let waiting := m.tasks.filter fun t => (wait? turn m t).isSome
    some (ready.foldl (serveTask turn limit) { m with tasks := waiting })

/-- Serves the background until all of it waits.  Time stands still. -/
def settle (turn : Behaviour σ π ρ) (limit : Nat) : Nat → Machine σ π ρ → Machine σ π ρ
  | 0, m => m
  | fuel + 1, m =>
      match round? turn limit m with
      | none => m
      | some m => settle turn limit fuel m

/-- The first instant at which a background process is due. -/
def due? (turn : Behaviour σ π ρ) (m : Machine σ π ρ) : Option Instant :=
  m.tasks.foldl (fun t task => earliest t ((wait? turn m task).getD none)) none

/-- Serves the background once, or lets time jump to the next instant at which something is due:
in the background, or at the instant `own?` that the caller waits for.  None if nothing is due. -/
def progress? (turn : Behaviour σ π ρ) (limit : Nat) (m : Machine σ π ρ) (own? : Option Instant) :
    Option (Machine σ π ρ) :=
  match round? turn limit m with
  | some m => some m
  | none => (earliest own? (due? turn m)).map fun t => { m with now := t }

/-- Runs a process in the foreground until it ends.  It has no result if it would wait for ever. -/
def perform (turn : Behaviour σ π ρ) (limit : Nat) :
    Nat → Machine σ π ρ → π → Machine σ π ρ × Option ρ
  | 0, m, _ => (m, none)
  | fuel + 1, m, p =>
      match serve turn limit m p with
      | (m, .over result) => (m, some result)
      | (m, .waiting p own?) =>
          match progress? turn limit m own? with
          | none => (m, none)
          | some m => perform turn limit fuel m p

/-- Takes the first kept result of the processes with a name. -/
def take? (m : Machine σ π ρ) (name : String) : Option (Finish ρ × Machine σ π ρ) :=
  (m.finished.find? (·.name == name)).map fun f =>
    (f, { m with finished := m.finished.eraseP (·.name == name) })

/-- Waits for a named background process.  No result if it would wait for ever. -/
def join (turn : Behaviour σ π ρ) (limit : Nat) :
    Nat → Machine σ π ρ → String → Machine σ π ρ × Option (Finish ρ)
  | 0, m, _ => (m, none)
  | fuel + 1, m, name =>
      match m.take? name with
      | some (f, m) => (m, some f)
      | none =>
          if m.tasks.any (·.name? == some name) then
            match progress? turn limit m none with
            | none => (m, none)
            | some m => join turn limit fuel m name
          else (m, none)

/-- Takes the records written since the log was last taken. -/
def takeLog (m : Machine σ π ρ) : List Record × Machine σ π ρ := (m.log, { m with log := [] })

end Machine

end Leasehold.Simulation
