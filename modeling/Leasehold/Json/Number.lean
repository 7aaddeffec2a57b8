import Leasehold.Number.Shortest
import Leasehold.Text.Numeral

/-!
# Numbers in JSON

A number has a whole part without needless zeros, and may have a fraction and a power of ten.

A number without fraction and power is an integer if it fits a 64-bit word, with a sign or without;
minus zero and all others are binary numbers.  A binary number is found from at most as many digits
as fit a 64-bit word: whole digits beyond count as powers of ten, and digits of the fraction beyond
do not count.  The word is rounded, then multiplied or divided by the power of ten, and rounded
again.  A number that comes out infinite has no value.

Binary numbers are shown written out from `0.00001` up and below `10^16`, and otherwise with a
power of ten.
-/

namespace Leasehold.Json

/-- A number. -/
inductive Number where
  /-- A number that is whole. -/
  | integer (n : Int)
  /-- Any other. -/
  | float (x : Binary64)
deriving DecidableEq, Repr

/-- How binary numbers are shown. -/
def floatLayout : Binary64.Layout := ⟨-5, 15, false⟩

namespace Number

/-! ## The value of digits -/

/-- The digits of a number as far as they are kept. -/
structure Kept where
  /-- The digits that are kept, as a number. -/
  value : Nat := 0
  /-- The power of ten that the value has to be multiplied with. -/
  power : Int := 0
  /-- Whether the last digit was left out. -/
  full : Bool := false

/-- One more whole digit. -/
def Kept.whole (k : Kept) (d : Nat) : Kept :=
  let n := 10 * k.value + d
  if k.full ∨ Nat.pow 2 64 ≤ n then { k with power := k.power + 1, full := true }
  else { k with value := n }

/-- One more digit of the fraction. -/
def Kept.fraction (k : Kept) (d : Nat) : Kept :=
  let n := 10 * k.value + d
  if k.full ∨ Nat.pow 2 64 ≤ n then { k with full := true }
  else { k with value := n, power := k.power - 1 }

/-- The number `x · 10 ^ k`, for any `k`.  After two divisions by `10 ^ 308` nothing is left. -/
def scaledBy (x : Binary64) (k : Int) : (divisions : Nat) → Option Binary64
  | 0 => some x
  | divisions + 1 =>
      if k.natAbs ≤ 308 then
        let power := Binary64.ofNat (Nat.pow 10 k.natAbs)
        let y := if 0 ≤ k then x.mul power else x.div power
        if y.isInfinite then none else some y
      else if x.isZero then some x
      else if 0 ≤ k then none
      else scaledBy (x.div (Binary64.ofNat (Nat.pow 10 308))) (k + 308) divisions

/-- The binary number of kept digits. -/
def Kept.float? (k : Kept) (negative : Bool) : Option Binary64 :=
  (scaledBy (Binary64.ofNat k.value) k.power 4).map fun x => if negative then x.neg else x

/-- The number of kept whole digits. -/
def Kept.number? (k : Kept) (negative : Bool) : Option Number :=
  if k.full ∨ (negative ∧ (k.value = 0 ∨ Nat.pow 2 63 < k.value)) then
    (k.float? negative).map .float
  else some (.integer (if negative then -(k.value : Int) else k.value))

/-! ## Reading -/

/-- A run of digits, if it is not empty, and the rest. -/
def digits? (cs : List Char) : Option (List Nat × List Char) :=
  match cs.takeWhile Numeral.isDigit with
  | [] => none
  | ds => some (ds.map Numeral.digitValue, cs.dropWhile Numeral.isDigit)

/-- A power of ten behind its letter, and the rest. -/
def power? (cs : List Char) : Option (Int × List Char) := do
  let (negative, cs) := match cs with
    | '+' :: cs => (false, cs)
    | '-' :: cs => (true, cs)
    | cs => (false, cs)
  let (ds, cs) ← digits? cs
  let n : Nat := ds.foldl (fun n d => 10 * n + d) 0
  some (if negative then -n else n, cs)

/-- The power of ten at the front of a text, if there is one, and the rest. -/
def optionalPower? (cs : List Char) : Option (Option Int × List Char) :=
  match cs with
  | 'e' :: cs | 'E' :: cs => (power? cs).map fun (k, cs) => (some k, cs)
  | cs => some (none, cs)

/-- A number behind its sign, and the rest.  The inner value is missing if the number is too
large. -/
def unsigned? (negative : Bool) (cs : List Char) : Option (Option Number × List Char) := do
  let (ds, rest) ← digits? cs
  if ds.head? = some 0 ∧ 1 < ds.length then none
  let kept := ds.foldl Kept.whole {}
  match rest with
  | '.' :: rest =>
      let (fs, rest) ← digits? rest
      let kept := fs.foldl Kept.fraction { kept with full := false }
      let (power?, rest) ← optionalPower? rest
      let kept := { kept with power := kept.power + power?.getD 0 }
      some ((kept.float? negative).map .float, rest)
  | rest =>
      let (power?, rest) ← optionalPower? rest
      match power? with
      | some k =>
          let kept := { kept with power := kept.power + k }
          some ((kept.float? negative).map .float, rest)
      | none => some (kept.number? negative, rest)

/-- A number at the front of a text, and the rest. -/
def ofText? : List Char → Option (Option Number × List Char)
  | '-' :: cs => unsigned? true cs
  | cs => unsigned? false cs

example : ofText? ['1', '2', ','] = some (some (.integer 12), [',']) := by decide +kernel
example : ofText? ['-', '0'] = some (some (.float (.finite true 0 (-1074))), []) := by
  decide +kernel
example : ofText? ['0', '1'] = none := by decide +kernel
example : ofText? ['1', 'e', '4', '0', '0'] = some (none, []) := by decide +kernel

end Number

end Leasehold.Json
