import Leasehold.Cancellation
import Leasehold.Lock.Config
import Leasehold.Table
import Leasehold.Time.Instant

/-!
# The renewals of a lock manager

A lock manager remembers for each key the renewal that it started last.  Every renewal has a number
of its own, its generation.  A new renewal of a key takes the place of an older one, which belongs
to a lease that has run out, and the older one is cancelled.  A renewal that is over takes its
entry away only if the entry is still its own: the generation tells.
-/

namespace Leasehold.Lock

/-- A registered renewal. -/
structure Renewal where
  /-- Whose lease is renewed. -/
  owner : String
  /-- The token that stops the renewal. -/
  token : Nat
  /-- The number of the renewal.  Numbers have no bound: a lock manager that starts `2 ^ 64` renewals,
  as many as a 64-bit counter tells apart, is outside the model. -/
  generation : Nat
deriving DecidableEq, Repr

/-- A lock manager. -/
structure Manager where
  /-- Its settings. -/
  config : Config := {}
  /-- The renewal registered for each key. -/
  renewals : Table Renewal := ∅
  /-- The number of the next renewal, without a bound like all of them. -/
  nextGeneration : Nat := 0
deriving DecidableEq, Repr

namespace Manager

instance : Inhabited Manager := ⟨{}⟩

/-- Whether a renewal of a key is registered. -/
def renewing (m : Manager) (k : String) : Bool := m.renewals.contains k

/-- Registers a new renewal.  Gives the renewal that was registered before. -/
def register (m : Manager) (k owner : String) (token : Nat) : Option Renewal × Manager :=
  (m.renewals.find? k,
    { m with
      renewals := m.renewals.insert k ⟨owner, token, m.nextGeneration⟩
      nextGeneration := m.nextGeneration + 1 })

/-- Takes the renewal of a key away if it is for the given owner. -/
def unregister (m : Manager) (k owner : String) : Option Renewal × Manager :=
  match m.renewals.find? k with
  | some r =>
      if r.owner = owner then (some r, { m with renewals := m.renewals.erase k }) else (none, m)
  | none => (none, m)

/-- Takes the entry of a renewal that is over away, if it is still there. -/
def retire (m : Manager) (k : String) (generation : Nat) : Manager :=
  match m.renewals.find? k with
  | some r =>
      if r.generation = generation then { m with renewals := m.renewals.erase k } else m
  | none => m

end Manager

end Leasehold.Lock
