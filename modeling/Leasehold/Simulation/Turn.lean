import Leasehold.Log
import Leasehold.Time.Instant

/-!
# Turns

A process is a value that says how far some activity has come.  Processes share a world.  What a
process does when it is its turn is one of three things: it waits, it takes a step and goes on, or
it takes its last step.  A step changes the world at once and as a whole; between two steps of one
process any number of steps of others may come, and time may pass.

Nothing here says who has the next turn.  That is left to a schedule, such as
`Simulation.Machine`.
-/

namespace Leasehold.Simulation

open Log (Record)

/-- What a process of type `π` in a world of type `σ` does on its turn, with a result of type `ρ`
in the end. -/
inductive Turn (σ π ρ : Type) where
  /-- Nothing, for it has to wait: for another process, or at most until the given instant. -/
  | waits (due? : Option Instant)
  /-- A step, after which it goes on as `next`. -/
  | moves (world : σ) (next : π) (records : List Record)
  /-- Its last step, which may start other processes. -/
  | ends (world : σ) (result : ρ) (started : List π) (records : List Record)

namespace Turn

variable {σ σ' π π' ρ ρ' : Type}

/-- The turn with records written before its own. -/
def after (records : List Record) : Turn σ π ρ → Turn σ π ρ
  | waits due? => waits due?
  | moves world next more => moves world next (records ++ more)
  | ends world result started more => ends world result started (records ++ more)

/-- The turn of a process that runs as a part of another one: `world` puts what it changes into the
larger world, `next` makes it a part again, and `done` goes on when it is over. -/
def within (t : Turn σ π ρ) (world : σ → σ') (next : π → π')
    (done : σ' → ρ → Turn σ' π' ρ') : Turn σ' π' ρ' :=
  match t with
  | waits due? => waits due?
  | moves s p records => moves (world s) (next p) records
  | ends s result _ records => (done (world s) result).after records

end Turn

/-- The turns of every process: what it does at an instant in a world. -/
abbrev Behaviour (σ π ρ : Type) := Instant → σ → π → Turn σ π ρ

/-- Whether an instant that may never come has come. -/
def isDue (now : Instant) : Option Instant → Bool
  | none => false
  | some t => decide (t ≤ now)

end Leasehold.Simulation
