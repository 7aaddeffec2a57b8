import Leasehold.Toml.Item
import Leasehold.Toml.Text

/-!
# Numbers and dates in TOML

Digits may be grouped by single underscores between them.  A decimal integer has a sign or none and
no needless zeros; a hexadecimal, octal or binary one has its mark and no sign.  Integers fit 64
bits with a sign.  A binary number has a fraction, a power of ten or both, and is rounded once; it
may be infinite only below zero, or where it is written `inf`.

A date is a day of the calendar.  A time has hours, minutes and seconds, of which there may be 60,
and perhaps a fraction.  A date may have a time behind it, and that an offset.  What the date is
does not matter to any reader.
-/

namespace Leasehold.Toml

/-! ## Digits -/

/-- The digits behind a first one, without underscores. -/
def moreDigits? (isDigit : Char → Bool) : Reader (List Char)
  | '_' :: c :: rest => if isDigit c then consRead c (moreDigits? isDigit rest) else none
  | c :: rest =>
      if isDigit c then consRead c (moreDigits? isDigit rest)
      else if c = '_' then none
      else some ([], c :: rest)
  | [] => some ([], [])

/-- A run of digits. -/
def digits? (isDigit : Char → Bool) : Reader (List Char)
  | c :: rest => if isDigit c then consRead c (moreDigits? isDigit rest) else none
  | [] => none

/-- A run of decimal digits without needless zeros. -/
def wholeDigits? : Reader (List Char)
  | '0' :: rest => some (['0'], rest)
  | cs => digits? Numeral.isDigit cs

/-- Exactly two digits of a number from `least` to `most`. -/
def twoDigits? (least most : Nat) : Reader Nat
  | a :: b :: rest =>
      let n := Numeral.value [a, b]
      if Numeral.isDigit a ∧ Numeral.isDigit b ∧ least ≤ n ∧ n ≤ most then some (n, rest) else none
  | _ => none

/-! ## Numbers -/

/-- A sign, if there is one: whether it is a minus. -/
def sign : List Char → Option Bool × List Char
  | '+' :: rest => (some false, rest)
  | '-' :: rest => (some true, rest)
  | cs => (none, cs)

/-- An integer, if it is in range. -/
def integer? (negative : Bool) (n : Nat) : Option Item :=
  if negative then if n ≤ Nat.pow 2 63 then some (.integer (-n)) else none
  else if n < Nat.pow 2 63 then some (.integer n) else none

/-- An integer in another base, behind its mark. -/
def based? (base : Nat) (cs : List Char) : Option (Item × List Char) := do
  let (ds, rest) ← digits? (fun c => (Numeral.digit? base c).isSome) cs
  let n ← Numeral.value? base ds
  let item ← integer? false n
  some (item, rest)

/-- The power of ten behind its letter. -/
def power? (cs : List Char) : Option (Int × List Char) := do
  let (negative?, cs) := sign cs
  let (ds, rest) ← digits? Numeral.isDigit cs
  let n : Nat := Numeral.value ds
  some (if negative? = some true then -n else n, rest)

/-- The digits of a fraction, if there is one. -/
def fraction? : Reader (List Char)
  | '.' :: rest => digits? Numeral.isDigit rest
  | cs => some ([], cs)

/-- A power of ten, if there is one. -/
def optionalPower? (cs : List Char) : Option (Option Int × List Char) :=
  match cs with
  | 'e' :: rest | 'E' :: rest => (power? rest).map fun (k, rest) => (some k, rest)
  | cs => some (none, cs)

/-- A decimal number behind its sign. -/
def decimal? (negative : Bool) (cs : List Char) : Option (Item × List Char) := do
  let (whole, rest) ← wholeDigits? cs
  let (fraction, rest) ← fraction? rest
  let (power?, rest) ← optionalPower? rest
  if fraction = [] ∧ power? = none then
    let item ← integer? negative (Numeral.value whole)
    some (item, rest)
  else
    let x := Binary64.ofDecimal negative (Numeral.value (whole ++ fraction))
      (power?.getD 0 - fraction.length)
    if x = .infinite false then none else some (.float x, rest)

/-- A number. -/
def number? (cs : List Char) : Option (Item × List Char) :=
  match sign cs with
  | (sign?, 'i' :: 'n' :: 'f' :: rest) => some (.float (.infinite (sign? = some true)), rest)
  | (_, 'n' :: 'a' :: 'n' :: rest) => some (.float .nan, rest)
  | (none, '0' :: 'x' :: rest) => based? 16 rest
  | (none, '0' :: 'o' :: rest) => based? 8 rest
  | (none, '0' :: 'b' :: rest) => based? 2 rest
  | (sign?, rest) => decimal? (sign? = some true) rest

/-! ## Dates -/

/-- The number of days of a month. -/
def daysOf (year month : Nat) : Nat :=
  if month = 2 then
    if year % 4 = 0 ∧ (year % 100 ≠ 0 ∨ year % 400 = 0) then 29 else 28
  else if month = 4 ∨ month = 6 ∨ month = 9 ∨ month = 11 then 30
  else 31

/-- The rest behind an expected character. -/
def expect? (c : Char) : List Char → Option (List Char)
  | d :: rest => if d = c then some rest else none
  | [] => none

/-- The rest behind a time. -/
def time? (cs : List Char) : Option (List Char) := do
  let (_, cs) ← twoDigits? 0 23 cs
  let cs ← expect? ':' cs
  let (_, cs) ← twoDigits? 0 59 cs
  let cs ← expect? ':' cs
  let (_, cs) ← twoDigits? 0 60 cs
  match cs with
  | '.' :: rest =>
      if (rest.takeWhile Numeral.isDigit).isEmpty then none
      else some (rest.dropWhile Numeral.isDigit)
  | cs => some cs

/-- The rest behind an offset, if there is one. -/
def offset? (cs : List Char) : Option (List Char) :=
  match cs with
  | 'Z' :: rest | 'z' :: rest => some rest
  | '+' :: rest | '-' :: rest => do
      let (_, rest) ← twoDigits? 0 23 rest
      let rest ← expect? ':' rest
      let (_, rest) ← twoDigits? 0 59 rest
      some rest
  | cs => some cs

/-- Whether a time begins here: two digits and a colon. -/
def beginsTime : List Char → Bool
  | a :: b :: ':' :: _ => Numeral.isDigit a && Numeral.isDigit b
  | _ => false

/-- Whether a date begins here: four digits and a dash. -/
def beginsDate : List Char → Bool
  | a :: b :: c :: d :: '-' :: _ => [a, b, c, d].all Numeral.isDigit
  | _ => false

/-- The rest behind a date, with a time and an offset if there are any. -/
def date? (cs : List Char) : Option (List Char) := do
  let year := Numeral.value (cs.take 4)
  let cs := cs.drop 5
  let (month, cs) ← twoDigits? 1 12 cs
  let cs ← expect? '-' cs
  let (_, cs) ← twoDigits? 1 (daysOf year month) cs
  match cs with
  | c :: rest =>
      if (c = 'T' ∨ c = 't' ∨ c = ' ') ∧ beginsTime rest then do
        let rest ← time? rest
        offset? rest
      else some cs
  | [] => some []

/-! ## Scalars -/

/-- A value that holds no others. -/
def scalar? (cs : List Char) : Option (Item × List Char) :=
  match cs with
  | '"' :: _ | '\'' :: _ => (text? cs).map fun (s, rest) => (.string (String.ofList s), rest)
  | 't' :: 'r' :: 'u' :: 'e' :: rest => some (.boolean true, rest)
  | 'f' :: 'a' :: 'l' :: 's' :: 'e' :: rest => some (.boolean false, rest)
  | cs =>
      if beginsDate cs then (date? cs).map fun rest => (.date, rest)
      else if beginsTime cs then (time? cs).map fun rest => (.date, rest)
      else number? cs

end Leasehold.Toml
