import Leasehold.Settings.Wording
import Leasehold.Time.Duration

/-!
# The settings of a pool

A pool opens `initial` resources when it is made and keeps at most `max` idle ones.  Under the
bounded policy no more than `max` are open at all.  A settings value is valid if the pool starts
with at least one resource and not with more than it can hold.
-/

namespace Leasehold.Pool

/-- What happens when no idle resource is left. -/
inductive Checkout where
  /-- A new resource is opened, however many are open. -/
  | lenient
  /-- A new resource is opened while fewer than `max` are open. -/
  | bounded
deriving DecidableEq, Repr

/-- The name of a policy in settings. -/
def Checkout.name : Checkout → String
  | .lenient => "lenient"
  | .bounded => "bounded"

/-- The policy of a name. -/
def Checkout.ofName? : String → Option Checkout
  | "lenient" => some .lenient
  | "bounded" => some .bounded
  | _ => none

/-- The settings of a pool. -/
structure Config where
  /-- How many resources are opened at once. -/
  initial : UInt64 := 1
  /-- How many idle resources are kept, and under the bounded policy how many are open. -/
  max : UInt64 := 8
  /-- How long a resource may be idle; zero for any time. -/
  idleTimeout : Duration := .zero
  /-- What happens when no idle resource is left. -/
  checkout : Checkout := .lenient
deriving DecidableEq, Repr

instance : Inhabited Config := ⟨{}⟩

namespace Config

/-- Whether idle resources are given up after a time. -/
def evictsIdle (c : Config) : Bool := !c.idleTimeout.isZero

/-- Why a settings value is refused. -/
inductive Fault where
  /-- The pool would start with more than it can hold. -/
  | exceeds (initial max : UInt64)
  /-- The pool would start empty. -/
  | zero
deriving DecidableEq, Repr

/-- What is wrong. -/
def Fault.reason : Fault → String
  | .exceeds initial max =>
      "initial pool size " ++ toString initial.toNat ++ " exceeds max " ++ toString max.toNat
  | .zero => "initial and max pool size must be non-zero"

/-- The text of a fault. -/
def Fault.message (f : Fault) : String := Settings.refusal f.reason

/-- What is wrong with a settings value, if anything is. -/
def fault? (c : Config) : Option Fault :=
  if c.max < c.initial then some (.exceeds c.initial c.max)
  else if c.initial = 0 ∨ c.max = 0 then some .zero
  else none

end Config

end Leasehold.Pool
