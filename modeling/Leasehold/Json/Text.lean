import Leasehold.Text.Numeral

/-!
# Text in JSON

A text stands in double quotes.  A quote, a backslash and the controls below U+0020 are escaped, the
common ones by a letter and the others by their number in four hexadecimal digits.

Reading takes any character by its number, and those above U+FFFF as two surrogates in a row.  A
surrogate alone is the form of no character: a text with one can be passed over but has no value.
-/

namespace Leasehold.Json

/-! ## Writing -/

/-- One character inside quotes. -/
def escaped (c : Char) : List Char :=
  match c with
  | '"' => ['\\', '"']
  | '\\' => ['\\', '\\']
  | '\x08' => ['\\', 'b']
  | '\x0c' => ['\\', 'f']
  | '\n' => ['\\', 'n']
  | '\r' => ['\\', 'r']
  | '\t' => ['\\', 't']
  | c =>
      if c.toNat < 0x20 then
        ['\\', 'u', '0', '0', Numeral.digitChar (c.toNat / 16), Numeral.digitChar (c.toNat % 16)]
      else [c]

/-- A text in quotes. -/
def textOf (cs : List Char) : List Char := '"' :: cs.flatMap escaped ++ ['"']

/-! ## Reading -/

/-- The number of four hexadecimal digits. -/
def fourDigits? (a b c d : Char) : Option Nat := Numeral.value? 16 [a, b, c, d]

/-- The character that an escape of one letter stands for. -/
def letterEscape? : Char → Option Char
  | '"' => some '"'
  | '\\' => some '\\'
  | '/' => some '/'
  | 'b' => some '\x08'
  | 'f' => some '\x0c'
  | 'n' => some '\n'
  | 'r' => some '\r'
  | 't' => some '\t'
  | _ => none

/-- The code points and surrogates of a text up to its closing quote, and what follows the quote.
Fails if the text is not closed, or has a control or an escape that is none. -/
def units? : List Char → Option (List Nat × List Char)
  | [] => none
  | '"' :: rest => some ([], rest)
  | '\\' :: 'u' :: a :: b :: c :: d :: rest => do
      let n ← fourDigits? a b c d
      let (ns, rest) ← units? rest
      some (n :: ns, rest)
  | '\\' :: c :: rest => do
      let c ← letterEscape? c
      let (ns, rest) ← units? rest
      some (c.toNat :: ns, rest)
  | c :: rest =>
      if c.toNat < 0x20 ∨ c = '\\' then none
      else (units? rest).map fun (ns, rest) => (c.toNat :: ns, rest)

/-- Whether a number is the first surrogate of two. -/
def isHigh (n : Nat) : Bool := decide (0xD800 ≤ n) && decide (n < 0xDC00)

/-- Whether a number is the second surrogate of two. -/
def isLow (n : Nat) : Bool := decide (0xDC00 ≤ n) && decide (n < 0xE000)

/-- The characters of code points and surrogates, if every surrogate is one of two. -/
def joined? : List Nat → Option (List Char)
  | [] => some []
  | [n] => if isHigh n || isLow n then none else some [Char.ofNat n]
  | n :: m :: rest =>
      if isHigh n then
        if isLow m then
          (joined? rest).map (Char.ofNat (0x10000 + (n - 0xD800) * 0x400 + (m - 0xDC00)) :: ·)
        else none
      else if isLow n then none
      else (joined? (m :: rest)).map (Char.ofNat n :: ·)

/-- A text behind its opening quote, and the rest.  The inner value is missing if there is a
surrogate alone. -/
def text? (cs : List Char) : Option (Option (List Char) × List Char) :=
  (units? cs).map fun (ns, rest) => (joined? ns, rest)

example :
    textOf ['a', '"', '\x01'] = ['"', 'a', '\\', '"', '\\', 'u', '0', '0', '0', '1', '"'] := by
  decide
example : text? ['\\', 'u', 'd', '8', '3', 'd', '\\', 'u', 'd', 'e', '0', '0', '"', ',']
    = some (some ['😀'], [',']) := by decide
example : text? ['\\', 'u', 'd', '8', '3', 'd', '"'] = some (none, []) := by decide

end Leasehold.Json
