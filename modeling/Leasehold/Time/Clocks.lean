import Leasehold.Time.Instant

/-!
# Clocks moved by hand

Several clocks whose readings are set or moved on.  A clock may share its hands with another one:
then both always read the same.  Readings can be marked, and the time since a mark asked for.
-/

namespace Leasehold

/-- Some clocks and marks. -/
structure Clocks where
  /-- The readings of the hands. -/
  hands : List Instant := [.epoch]
  /-- The hands of each clock, by their place on the list. -/
  faces : List Nat := [0]
  /-- The marked readings. -/
  marks : List Instant := [.epoch]
deriving DecidableEq, Repr

namespace Clocks

/-- What can be done with clocks. -/
inductive Step where
  /-- Move a clock on. -/
  | advance (clock : Nat) (d : Duration)
  /-- Set a clock to a time after the epoch. -/
  | set (clock : Nat) (d : Duration)
  /-- Take another clock with the same hands. -/
  | share (clock : Nat)
  /-- Take another clock with hands of its own. -/
  | fresh
  /-- Mark the reading of a clock. -/
  | mark (clock : Nat)
  /-- Ask for the time since a mark. -/
  | since (clock mark : Nat)
deriving Repr

/-- What comes of a step. -/
inductive Outcome where
  /-- It was carried out. -/
  | ok
  /-- The number of a mark. -/
  | mark (n : Nat)
  /-- A time. -/
  | time (d : Duration)
  /-- The clock cannot read so late. -/
  | overflow
  /-- There is no clock or mark of that number. -/
  | missing
deriving DecidableEq, Repr

/-- The hands of a clock. -/
def hand? (c : Clocks) (clock : Nat) : Option (Nat × Instant) := do
  let i ← c.faces[clock]?
  let t ← c.hands[i]?
  some (i, t)

/-- The readings of all clocks. -/
def readings (c : Clocks) : List Instant := c.faces.filterMap fun i => c.hands[i]?

/-- Sets some hands, if they can read so late. -/
def setHand (c : Clocks) (i : Nat) (reading? : Option Instant) : Outcome × Clocks :=
  match reading? with
  | some t => (.ok, { c with hands := c.hands.set i t })
  | none => (.overflow, c)

/-- Carries out a step. -/
def perform (c : Clocks) : Step → Outcome × Clocks
  | .advance clock d =>
      match c.hand? clock with
      | some (i, t) => c.setHand i (t.after? d)
      | none => (.missing, c)
  | .set clock d =>
      match c.hand? clock with
      | some (i, _) => c.setHand i (Instant.epoch.after? d)
      | none => (.missing, c)
  | .share clock =>
      match c.faces[clock]? with
      | some i => (.ok, { c with faces := c.faces ++ [i] })
      | none => (.missing, c)
  | .fresh =>
      (.ok, { c with hands := c.hands ++ [.epoch], faces := c.faces ++ [c.hands.length] })
  | .mark clock =>
      match c.hand? clock with
      | some (_, t) => (.mark c.marks.length, { c with marks := c.marks ++ [t] })
      | none => (.missing, c)
  | .since clock mark =>
      match c.hand? clock, c.marks[mark]? with
      | some (_, t), some s => (.time (t.since s), c)
      | _, _ => (.missing, c)

/-- What is reported after a step. -/
structure Report where
  /-- What came of the step. -/
  outcome : Outcome
  /-- The readings of all clocks. -/
  readings : List Instant

/-- Takes a series of steps from one clock at its epoch. -/
def run (steps : List Step) : List Report :=
  (steps.foldl (fun (acc : List Report × Clocks) s =>
    let (outcome, c) := acc.2.perform s
    (acc.1 ++ [⟨outcome, c.readings⟩], c)) ([], {})).1

end Clocks

end Leasehold
