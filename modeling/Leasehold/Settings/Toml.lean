import Leasehold.Settings.Fields
import Leasehold.Toml.Document

/-!
# Settings in TOML

A document is the mapping of its entries.  A sequence may be longer than the structure read from
it.  A list of tables is a sequence, and a date counts as a mapping without known names.  A
checkout policy is its name, or a table with the name as its only key and an empty table under it.

Settings that are read from a document have to be valid too.
-/

namespace Leasehold

/-- How binary numbers in a document are shown: always written out. -/
def Toml.floatLayout : Binary64.Layout := ⟨-324, 308, true⟩

namespace Settings

namespace TomlFormat

/-- The entries of a table as those of a mapping. -/
def named (es : Toml.Entries) : List (Option String × Toml.Item) := es.map fun (k, v) => (some k, v)

/-- The shape of an item. -/
def shape : Toml.Item → Shape Toml.Item
  | .string s => .text s
  | .integer n => .integer n
  | .float x => .float (x.text Toml.floatLayout)
  | .boolean b => .boolean b
  | .date => .mapping [] true
  | .array items => .sequence items true
  | .table _ es => .mapping (named es) true
  | .tables elements => .sequence (elements.map (.table .header)) true

/-- How an item that is no table is named. -/
def typeName : Toml.Item → String
  | .string _ => "string"
  | .integer _ => "integer"
  | .float _ => "float"
  | .boolean _ => "boolean"
  | .date => "datetime"
  | .array _ => "array"
  | .table _ _ => "table"
  | .tables _ => "array of tables"

/-- A checkout policy. -/
def checkout : Toml.Item → Reading Pool.Checkout
  | .string name => policy name
  | .table _ [] => misfit .noName
  | .table _ [(name, item)] => do
      let p ← policy name
      match item with
      | .table _ [] => .ok p
      | .table _ _ => misfit .tableNotEmpty
      | item => misfit (.noTable (typeName item))
  | .table _ _ => misfit .severalNames
  | _ => misfit .neitherNameNorTable

end TomlFormat

/-- What a reader of settings has to know of TOML. -/
def tomlFormat : Format Toml.Item where
  shape := TomlFormat.shape
  passes := fun _ => true
  checkout := TomlFormat.checkout
  allowsMore := true

/-- Why a document gives no settings. -/
inductive Refusal where
  /-- No settings can be read from it. -/
  | unread (fault : Fault)
  /-- The settings are not valid. -/
  | invalid (fault : Invalid)
deriving DecidableEq, Repr

/-- The settings of a document. -/
def ofToml (cs : List Char) : Except Refusal Settings :=
  match Toml.document? cs with
  | none => .error (.unread .malformed)
  | some es =>
      match tomlFormat.settings (.table .header es) with
      | .error fault => .error (.unread fault)
      | .ok s =>
          match s.invalid? with
          | some fault => .error (.invalid fault)
          | none => .ok s

end Settings

end Leasehold
