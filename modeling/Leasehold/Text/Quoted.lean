import Leasehold.Text.Extending
import Leasehold.Text.Numeral
import Leasehold.Text.Unprintable

/-!
# Quoted text

How text is shown inside a message: in double quotes, so that every character can be told.  A quote,
a backslash and the usual controls have escapes of their own.  A character that has no picture, or
that would be drawn onto the one before it, is shown by its number.
-/

namespace Leasehold.Text

/-- How one character is shown between quotes. -/
def quotedChar (c : Char) : List Char :=
  match c with
  | '"' => ['\\', '"']
  | '\\' => ['\\', '\\']
  | '\n' => ['\\', 'n']
  | '\r' => ['\\', 'r']
  | '\t' => ['\\', 't']
  | '\x00' => ['\\', '0']
  | c =>
      if isExtending c || isUnprintable c then
        ['\\', 'u', '\x7b'] ++ Numeral.inBase 16 c.toNat ++ ['\x7d']
      else [c]

/-- Text in double quotes. -/
def quoted (s : String) : String := String.ofList ('"' :: s.toList.flatMap quotedChar ++ ['"'])

end Leasehold.Text
