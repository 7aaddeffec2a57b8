import Leasehold.Json.Value
import Leasehold.Settings.Fields

/-!
# Settings in JSON

Settings are written as compact objects, their fields in a fixed order and durations spelled out.

Reading takes members in any order.  A sequence may not be longer than the structure read from it.
A checkout policy is its name, or an object with the name as its only member and nothing under it.
-/

namespace Leasehold

/-! ## Writing -/

namespace Json

/-- A duration, spelled out. -/
def durationOf (d : Duration) : List Char := textOf d.spelled.toList

/-- A text or nothing. -/
def optionalTextOf : Option String → List Char
  | some s => textOf s.toList
  | none => ['n', 'u', 'l', 'l']

end Json

/-- The settings of locks in JSON. -/
def Lock.Config.toJson (c : Lock.Config) : List Char :=
  Json.objectOf [
    ("backoff", Json.durationOf c.backoff),
    ("max_renewals", Numeral.decimal c.maxRenewals.toNat),
    ("lease", Json.durationOf c.lease)]

/-- The settings of a pool in JSON. -/
def Pool.Config.toJson (c : Pool.Config) : List Char :=
  Json.objectOf [
    ("initial", Numeral.decimal c.initial.toNat),
    ("max", Numeral.decimal c.max.toNat),
    ("idle_timeout", Json.durationOf c.idleTimeout),
    ("checkout", Json.textOf c.checkout.name.toList)]

/-- The settings of a Redis server in JSON. -/
def Redis.Settings.toJson (c : Redis.Settings) : List Char :=
  Json.objectOf [
    ("addr", Json.textOf c.addr.toList),
    ("password", Json.optionalTextOf c.password?),
    ("connect_timeout", Json.durationOf c.connectTimeout)]

namespace Settings

/-- The settings of a service in JSON. -/
def toJson (s : Settings) : List Char :=
  Json.objectOf [("lock", s.lock.toJson), ("pool", s.pool.toJson), ("redis", s.redis.toJson)]

/-! ## Reading -/

namespace JsonFormat

/-- The shape of a value. -/
def shape : Json.Value → Shape Json.Value
  | .null => .null
  | .boolean b => .boolean b
  | .number (some (.integer n)) => .integer n
  | .number (some (.float x)) => .float (x.text Json.floatLayout)
  | .number none => .unreadable
  | .text (some s) => .text s
  | .text none => .unreadable
  | .array items closed => .sequence items closed
  | .object members closed => .mapping members closed
  | .broken => .unreadable

/-- Whether a value may be passed over: all of it has to be there. -/
def passes : Json.Value → Bool
  | .array _ closed => closed
  | .object _ closed => closed
  | .broken => false
  | _ => true

/-- A checkout policy. -/
def checkout : Json.Value → Reading Pool.Checkout
  | .text (some name) => policy name
  | .object ((some name, v) :: rest) closed => do
      let p ← policy name
      match v with
      | .null => if rest.isEmpty && closed then .ok p else .error .malformed
      | v => (shape v).refuse "unit"
  | .object ((none, v) :: _) _ => (shape v).refuse "variant identifier"
  | _ => .error .malformed

end JsonFormat

/-- What a reader of settings has to know of JSON. -/
def jsonFormat : Format Json.Value where
  shape := JsonFormat.shape
  passes := JsonFormat.passes
  checkout := JsonFormat.checkout
  allowsMore := false

/-- Reads a JSON text with nothing behind its value. -/
def ofJson {β : Type} (read : Json.Value → Reading β) (cs : List Char) : Reading β :=
  let (v, ends) := Json.read cs
  read v >>= fun b => if ends then .ok b else .error .malformed

end Settings

end Leasehold
