/-!
# Numerals

Digits and numerals in a base, as lists of characters.  The digit characters are ASCII alone: `0` to
`9` and the letters `a` to `f`.
-/

namespace Leasehold.Numeral

/-- The character of a digit below sixteen, with small letters. -/
def digitChar (d : Nat) : Char :=
  if d < 10 then Char.ofNat (48 + d) else Char.ofNat (87 + d)

/-- The value of a hexadecimal digit, in either case. -/
def hexDigit? (c : Char) : Option Nat :=
  if '0' ≤ c ∧ c ≤ '9' then some (c.toNat - 48)
  else if 'a' ≤ c ∧ c ≤ 'f' then some (c.toNat - 87)
  else if 'A' ≤ c ∧ c ≤ 'F' then some (c.toNat - 55)
  else none

/-- The value of a digit in a base of at most sixteen. -/
def digit? (base : Nat) (c : Char) : Option Nat :=
  (hexDigit? c).filter (· < base)

/-- Whether a character is a decimal digit. -/
def isDigit (c : Char) : Bool := decide ('0' ≤ c) && decide (c ≤ '9')

/-- The value of a decimal digit. -/
def digitValue (c : Char) : Nat := c.toNat - 48

/-- The numeral of `n` in a base from two to sixteen. -/
def inBase (base n : Nat) : List Char :=
  if _h : base < 2 ∨ n < base then [digitChar n]
  else inBase base (n / base) ++ [digitChar (n % base)]
termination_by n
decreasing_by exact Nat.div_lt_self (by omega) (by omega)

/-- The decimal numeral of `n`. -/
def decimal (n : Nat) : List Char := inBase 10 n

/-- The last `width` decimal digits of `n`, with leading zeros. -/
def padded : (width n : Nat) → List Char
  | 0, _ => []
  | width + 1, n => padded width (n / 10) ++ [digitChar (n % 10)]

/-- The numeral without the zeros at its end. -/
def dropTrailingZeros (cs : List Char) : List Char :=
  (cs.reverse.dropWhile (· == '0')).reverse

/-- The value of a list of digits in a base, if all of them are digits. -/
def value? (base : Nat) (cs : List Char) : Option Nat :=
  cs.foldlM (fun n c => (digit? base c).map (base * n + ·)) 0

/-- The value of a list of decimal digits. -/
def value (cs : List Char) : Nat := cs.foldl (fun n c => 10 * n + digitValue c) 0

example : value? 16 ['F', 'f'] = some 255 := by decide
example : value? 8 ['8'] = none := by decide
example : padded 3 1042 = ['0', '4', '2'] := by decide

end Leasehold.Numeral
