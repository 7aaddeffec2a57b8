import Leasehold.Pool.Config
import Leasehold.Settings.Misfit
import Leasehold.Time.Spelled

/-!
# Shapes of values

Settings are read from several formats.  Each has values of its own; what a reader of settings has
to know of them is their shape, and the few things in which the formats differ.

Values are taken apart in the order of the text, and the first misfit ends the reading.  A structure
is read from a mapping, by the names of its fields, or from a sequence, by their order.  Fields that
are not given keep their defaults, and names that are not known are passed over.
-/

namespace Leasehold.Settings

/-- The shape of a value, over values of type `α`. -/
inductive Shape (α : Type) where
  | null
  | boolean (b : Bool)
  | integer (n : Int)
  /-- A binary number, by its text. -/
  | float (shown : String)
  | text (s : String)
  /-- Values in a row, and whether the row came to its end. -/
  | sequence (items : List α) (closed : Bool)
  /-- Values under names, and whether the mapping came to its end.  A name may be unreadable. -/
  | mapping (entries : List (Option String × α)) (closed : Bool)
  /-- What the format does not allow where a value is wanted. -/
  | unreadable

/-- What a reader has to know of a format with values of type `α`. -/
structure Format (α : Type) where
  /-- The shape of a value. -/
  shape : α → Shape α
  /-- Whether a value may be passed over. -/
  passes : α → Bool
  /-- How a checkout policy is read. -/
  checkout : α → Reading Pool.Checkout
  /-- Whether a sequence may be longer than the structure read from it. -/
  allowsMore : Bool

/-! ## Single values -/

namespace Shape

variable {α β : Type}

/-- What a misfit says was found, if anything can be said. -/
def found? : Shape α → Option Found
  | .null => some .null
  | .boolean b => some (.boolean b)
  | .integer n => some (.integer n)
  | .float shown => some (.float shown)
  | .text s => some (.text s)
  | .sequence _ _ => some .sequence
  | .mapping _ _ => some .mapping
  | .unreadable => none

/-- The report that a value is of another type than expected. -/
def refuse (s : Shape α) (expected : String) : Reading β :=
  match s.found? with
  | some found => misfit (.type found expected)
  | none => .error .malformed

/-- A natural number below `bound`. -/
def natural (bound : Nat) (expected : String) : Shape α → Reading Nat
  | .integer n =>
      if 0 ≤ n ∧ n < bound then .ok n.toNat else misfit (.value (.integer n) expected)
  | s => s.refuse expected

/-- A word of 32 bits. -/
def word32 (s : Shape α) : Reading UInt32 := (s.natural (Nat.pow 2 32) "u32").map Nat.toUInt32

/-- A word of 64 bits. -/
def word64 (s : Shape α) : Reading UInt64 := (s.natural (Nat.pow 2 64) "usize").map Nat.toUInt64

/-- A duration that is spelled out. -/
def duration : Shape α → Reading Duration
  | .text s =>
      match Duration.ofSpelled? s with
      | some d => .ok d
      | none => misfit (.value (.text s) "a duration")
  | s => s.refuse "a duration"

/-- A text. -/
def string : Shape α → Reading String
  | .text s => .ok s
  | s => s.refuse "a string"

/-- A text or nothing. -/
def optionalString : Shape α → Reading (Option String)
  | .null => .ok none
  | s => s.string.map some

end Shape

/-- The checkout policy of a name. -/
def policy (name : String) : Reading Pool.Checkout :=
  match Pool.Checkout.ofName? name with
  | some p => .ok p
  | none => misfit (.policy name)

/-! ## Structures -/

/-- A field of a structure `σ`: its name, and how a value is put into it. -/
structure Field (α σ : Type) where
  /-- The name. -/
  name : String
  /-- The structure with a value in the field. -/
  put : α → σ → Reading σ

/-- The field that a value is put into by `set` once it has been read. -/
def Field.of {α β σ : Type} (name : String) (read : α → Reading β) (set : β → σ → σ) : Field α σ :=
  { name, put := fun v s => (read v).map fun b => set b s }

namespace Format

variable {α σ : Type}

/-- Reads the entries of a mapping into a structure; `seen` are the names that have been given. -/
def entries (f : Format α) (fields : List (Field α σ)) :
    (seen : List String) → σ → List (Option String × α) → Reading σ
  | _, s, [] => .ok s
  | _, _, (none, _) :: _ => .error .malformed
  | seen, s, (some name, v) :: rest =>
      match fields.find? (·.name == name) with
      | none => if f.passes v then f.entries fields seen s rest else .error .malformed
      | some field =>
          if seen.contains name then misfit (.duplicate name)
          else do
            let s ← field.put v s
            f.entries fields (name :: seen) s rest

/-- Reads the items of a sequence into a structure. -/
def items (f : Format α) : List (Field α σ) → σ → List α → Reading σ
  | field :: fields, s, v :: rest => do
      let s ← field.put v s
      f.items fields s rest
  | [], s, _ :: _ => if f.allowsMore then .ok s else .error .malformed
  | _, s, [] => .ok s

/-- Reads a structure from a value, beginning with its defaults. -/
def fields (f : Format α) (name : String) (known : List (Field α σ)) (defaults : σ) (v : α) :
    Reading σ :=
  let finish (closed : Bool) (s : σ) : Reading σ := if closed then .ok s else .error .malformed
  match f.shape v with
  | .mapping entries closed => f.entries known [] defaults entries >>= finish closed
  | .sequence items closed => f.items known defaults items >>= finish closed
  | s => s.refuse ("struct " ++ name)

end Format

end Leasehold.Settings
