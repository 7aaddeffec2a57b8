import Leasehold.Text.Numeral
import Leasehold.Text.Utf8

/-!
# Percent encoding

A character that may not stand in a part of an address is written as its octets, each as a percent
sign and two hexadecimal digits.  Which characters those are depends on the part.  A percent sign
itself is kept, so a text that is encoded already stays as it is.

Reading puts an octet for every percent sign with two digits behind it.
-/

namespace Leasehold.Percent

/-! ## Which characters are encoded -/

/-- The characters encoded everywhere: controls and those outside ASCII. -/
def isControl (c : Char) : Bool := decide (c.toNat < 0x20) || decide (0x7F ≤ c.toNat)

/-- The characters encoded in a fragment. -/
def inFragment (c : Char) : Bool := isControl c || [' ', '"', '<', '>', '\x60'].contains c

/-- The characters encoded in a query. -/
def inQuery (c : Char) : Bool := isControl c || [' ', '"', '#', '<', '>'].contains c

/-- The characters encoded in a path. -/
def inPath (c : Char) : Bool := inFragment c || ['#', '?', '\x7b', '\x7d', '^'].contains c

/-- The characters encoded in a user name or a password. -/
def inUser (c : Char) : Bool :=
  inPath c || ['/', ':', ';', '=', '@', '[', '\\', ']', '|'].contains c

/-! ## Writing -/

/-- The capital hexadecimal digit of a number below sixteen. -/
def capitalDigit (d : Nat) : Char := if d < 10 then Char.ofNat (48 + d) else Char.ofNat (55 + d)

/-- An octet as a percent sign and two digits. -/
def octet (b : Nat) : List Char := ['%', capitalDigit (b / 16), capitalDigit (b % 16)]

/-- A text with some of its characters encoded. -/
def encode (encoded : Char → Bool) (cs : List Char) : List Char :=
  cs.flatMap fun c => if encoded c then (Utf8.encodeChar c).flatMap octet else [c]

/-! ## Reading -/

/-- The octets of a text. -/
def octets : List Char → List Nat
  | [] => []
  | '%' :: a :: b :: rest =>
      match Numeral.hexDigit? a, Numeral.hexDigit? b with
      | some x, some y => (16 * x + y) :: octets rest
      | _, _ => 0x25 :: octets (a :: b :: rest)
  | c :: rest => Utf8.encodeChar c ++ octets rest

/-- The text that was encoded, if the octets are the form of one. -/
def decode? (cs : List Char) : Option (List Char) := Utf8.decode (octets cs)

example : encode inUser ['p', '@', 'é'] = ['p', '%', '4', '0', '%', 'C', '3', '%', 'A', '9'] := by
  decide
example : decode? ['%', '4', '0', '%', '4'] = some ['@', '%', '4'] := by decide

end Leasehold.Percent
