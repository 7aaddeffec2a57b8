import Leasehold.Text.Quoted

/-!
# Texts that do not hold settings

A text can fail in two ways.  It is malformed if it does not follow the format it is written in.
Otherwise it has values, and the first value that does not fit its place is reported: what was found
there and what was expected.
-/

namespace Leasehold.Settings

/-- What is found in a place. -/
inductive Found where
  | null
  | boolean (b : Bool)
  | integer (n : Int)
  /-- A binary number, by its text. -/
  | float (shown : String)
  | text (s : String)
  | sequence
  | mapping
deriving DecidableEq, Repr

/-- How what is found is named. -/
def Found.name : Found → String
  | .null => "null"
  | .boolean b => "boolean `" ++ (if b then "true" else "false") ++ "`"
  | .integer n => "integer `" ++ toString n ++ "`"
  | .float shown => "floating point `" ++ shown ++ "`"
  | .text s => "string " ++ Text.quoted s
  | .sequence => "sequence"
  | .mapping => "map"

/-- Why a value does not fit its place. -/
inductive Misfit where
  /-- It is of another type. -/
  | type (found : Found) (expected : String)
  /-- It is of the type, but not one of its values. -/
  | value (found : Found) (expected : String)
  /-- It names no policy. -/
  | policy (name : String)
  /-- A field is given twice. -/
  | duplicate (field : String)
  /-- A policy is neither a name nor a table. -/
  | neitherNameNorTable
  /-- The table of a policy is empty. -/
  | noName
  /-- The table of a policy has several names. -/
  | severalNames
  /-- What stands under the name of a policy is no table. -/
  | noTable (found : String)
  /-- What stands under the name of a policy is a table with something in it. -/
  | tableNotEmpty
deriving DecidableEq, Repr

/-- The text of a misfit. -/
def Misfit.message : Misfit → String
  | .type found expected => "invalid type: " ++ found.name ++ ", expected " ++ expected
  | .value found expected => "invalid value: " ++ found.name ++ ", expected " ++ expected
  | .policy name => "unknown variant `" ++ name ++ "`, expected `lenient` or `bounded`"
  | .duplicate field => "duplicate field `" ++ field ++ "`"
  | .neitherNameNorTable => "wanted string or table"
  | .noName => "wanted exactly 1 element, found 0 elements"
  | .severalNames => "wanted exactly 1 element, more than 1 element"
  | .noTable found => "expected table, found " ++ found
  | .tableNotEmpty => "expected empty table"

/-- Why no settings are read from a text. -/
inductive Fault where
  /-- The text does not follow its format. -/
  | malformed
  /-- A value does not fit its place. -/
  | misfit (m : Misfit)
deriving DecidableEq, Repr

/-- A value read, or why not. -/
abbrev Reading (α : Type) := Except Fault α

/-- The report of a misfit. -/
def misfit {α : Type} (m : Misfit) : Reading α := .error (.misfit m)

end Leasehold.Settings
