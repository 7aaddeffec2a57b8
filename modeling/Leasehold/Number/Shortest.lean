import Leasehold.Number.Binary64
import Leasehold.Text.Numeral

/-!
# The shortest decimal of a binary number

A double stands for all reals that round to it: those between the midpoints to its neighbours, the
midpoints themselves if its `m` is even.  Its shortest decimal is the point in there of the coarsest
grid of powers of ten that has one.  Of two such points the nearer is taken; `tiesUp` settles which
of two equally near ones, the larger or the even.

A layout says which decimals are written out and which with a power of ten.
-/

namespace Leasehold.Binary64

/-! ## Digits -/

/-- The reals that round to a number, as multiples of `2 ^ (e - 2)`: the lower end, the number, the
upper end, and whether the ends belong to them. -/
structure Neighbourhood where
  /-- The lower end. -/
  low : Nat
  /-- The number itself. -/
  value : Nat
  /-- The upper end. -/
  high : Nat
  /-- Whether the ends belong to them. -/
  closed : Bool
  /-- The exponent of the unit. -/
  e : Int

/-- The reals that round to `m · 2 ^ e`.  Below a power of two the numbers are closer. -/
def neighbourhood (m : Nat) (e : Int) : Neighbourhood :=
  { low := 4 * m - if m = Nat.pow 2 52 ∧ -1074 < e then 1 else 2
    value := 4 * m
    high := 4 * m + 2
    closed := m % 2 == 0
    e := e - 2 }

/-- The point nearest to the number on the grid of multiples of `10 ^ k`, if one rounds to it. -/
def Neighbourhood.onGrid? (r : Neighbourhood) (tiesUp : Bool) (k : Int) : Option Nat :=
  let unit := ratio 1 r.e
  let den := unit.2 * Nat.pow 10 k.toNat
  let scale := unit.1 * Nat.pow 10 (-k).toNat
  let inside (c : Nat) : Bool :=
    if r.closed then decide (r.low * scale ≤ c * den) && decide (c * den ≤ r.high * scale)
    else decide (r.low * scale < c * den) && decide (c * den < r.high * scale)
  let below := r.value * scale / den
  let rest := r.value * scale % den
  match decide (0 < below) && inside below, inside (below + 1) with
  | true, true =>
      if den < 2 * rest ∨ (2 * rest = den ∧ (tiesUp ∨ below % 2 = 1)) then some (below + 1)
      else some below
  | true, false => some below
  | false, true => some (below + 1)
  | false, false => none

/-- The first point on the grids of `10 ^ k`, `10 ^ (k - 1)`, …, at most `steps` of them. -/
def Neighbourhood.search (r : Neighbourhood) (tiesUp : Bool) : (steps : Nat) → Int → Nat × Int
  | 0, k => (0, k)
  | steps + 1, k =>
      match r.onGrid? tiesUp k with
      | some n => (n, k)
      | none => r.search tiesUp steps (k - 1)

/-- The shortest decimal `n · 10 ^ k` of a positive number `m · 2 ^ e`. -/
def shortest (tiesUp : Bool) (m : Nat) (e : Int) : Nat × Int :=
  (neighbourhood m e).search tiesUp 700 309

/-! ## Layouts -/

/-- How a number is written. -/
structure Layout where
  /-- The least power of ten of a first digit that is still written out. -/
  least : Int
  /-- The greatest power of ten of a first digit that is still written out. -/
  greatest : Int
  /-- Whether of two equally near decimals the larger is taken. -/
  tiesUp : Bool

/-- The digits `ds` followed by `10 ^ k`, written out with a point. -/
def writtenOut (ds : List Char) (k : Int) : List Char :=
  let point : Int := ds.length + k
  if 0 ≤ k then ds ++ List.replicate k.toNat '0' ++ ['.', '0']
  else if 0 < point then ds.take point.toNat ++ '.' :: ds.drop point.toNat
  else ['0', '.'] ++ List.replicate (-point).toNat '0' ++ ds

/-- The digits `ds` with a point after the first and the power of ten of the first digit. -/
def withPower (ds : List Char) (first : Int) : List Char :=
  let sign := if first < 0 then ['-'] else []
  let rest := if ds.length ≤ 1 then [] else '.' :: ds.drop 1
  ds.take 1 ++ rest ++ 'e' :: sign ++ Numeral.decimal first.natAbs

/-- The text of a number in a layout. -/
def text (layout : Layout) : Binary64 → String
  | .nan => "NaN"
  | .infinite negative => if negative then "-inf" else "inf"
  | .finite negative m e =>
      let sign := if negative then ['-'] else []
      let body :=
        if m = 0 then ['0', '.', '0']
        else
          let (n, k) := shortest layout.tiesUp m e
          let ds := Numeral.decimal n
          let kept := Numeral.dropTrailingZeros ds
          let k := k + (ds.length - kept.length : Nat)
          let first : Int := kept.length + k - 1
          if layout.least ≤ first ∧ first ≤ layout.greatest then writtenOut kept k
          else withPower kept first
      String.ofList (sign ++ body)

end Leasehold.Binary64
