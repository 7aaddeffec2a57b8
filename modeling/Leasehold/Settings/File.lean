import Leasehold.Settings.Toml
import Leasehold.Text.Utf8

/-!
# Settings files

Settings are kept in a file as a TOML document in UTF-8.  A file that cannot be read is reported
with the reason that the system gives.
-/

namespace Leasehold.Settings

/-- What stands under the path of a file. -/
inductive File where
  /-- Nothing. -/
  | missing
  /-- A directory. -/
  | directory
  /-- A file with these octets. -/
  | octets (bytes : List Nat)
deriving DecidableEq, Repr

/-- Why a file cannot be read. -/
inductive File.Fault where
  /-- There is none. -/
  | missing
  /-- It is a directory. -/
  | directory
  /-- It holds no text. -/
  | noText
deriving DecidableEq, Repr

/-- The text of a fault. -/
def File.Fault.message : File.Fault → String
  | .missing => "failed to read settings file: No such file or directory (os error 2)"
  | .directory => "failed to read settings file: Is a directory (os error 21)"
  | .noText => "failed to read settings file: stream did not contain valid UTF-8"

/-- The text of a file. -/
def File.text : File → Except File.Fault (List Char)
  | .missing => .error .missing
  | .directory => .error .directory
  | .octets bytes =>
      match Utf8.decode bytes with
      | some cs => .ok cs
      | none => .error .noText

/-- The settings of a file. -/
def load (file : File) : Except File.Fault (Except Refusal Settings) := file.text.map ofToml

end Leasehold.Settings
