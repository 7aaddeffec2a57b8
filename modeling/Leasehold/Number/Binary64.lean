/-!
# Binary numbers of double precision

A finite number is `m · 2 ^ e` with `m` below `2 ^ 53` and `e` from -1074 to 971, with a sign.  All
arithmetic is exact on fractions of naturals and then rounded once: `ofRatio` gives the number
nearest to a fraction, and of two equally near ones the one with an even `m`.
-/

namespace Leasehold

/-- A number of double precision. -/
inductive Binary64 where
  /-- The number `m · 2 ^ e`, or its negative. -/
  | finite (negative : Bool) (m : Nat) (e : Int)
  /-- Beyond every number. -/
  | infinite (negative : Bool)
  /-- No number. -/
  | nan
deriving DecidableEq, Repr

namespace Binary64

/-- A fraction rounded to the nearest natural, a half to the even one. -/
def roundRatio (num den : Nat) : Nat :=
  let q := num / den
  let r := num % den
  if den < 2 * r ∨ (2 * r = den ∧ q % 2 = 1) then q + 1 else q

/-- The fraction `num / den · 2 ^ -e`. -/
def scaled (num den : Nat) (e : Int) : Nat × Nat :=
  if 0 ≤ e then (num, den * Nat.pow 2 e.toNat) else (num * Nat.pow 2 (-e).toNat, den)

/-- The exponent under which a fraction that is not zero has a whole part of 53 binary digits, or
the least exponent. -/
def exponentOf (num den : Nat) : Int :=
  let e : Int := (num.log2 : Int) - (den.log2 : Int) - 52
  let (n, d) := scaled num den e
  max (if n / d < Nat.pow 2 52 then e - 1 else e) (-1074)

/-- The number nearest to a fraction. -/
def ofRatio (negative : Bool) (num den : Nat) : Binary64 :=
  if num = 0 then .finite negative 0 (-1074)
  else
    let e := exponentOf num den
    let (n, d) := scaled num den e
    let m := roundRatio n d
    let (m, e) := if m = Nat.pow 2 53 then (Nat.pow 2 52, e + 1) else (m, e)
    if 971 < e then .infinite negative else .finite negative m e

/-- The number nearest to a natural number. -/
def ofNat (n : Nat) : Binary64 := ofRatio false n 1

/-- The number nearest to `n · 10 ^ k`.  A number of at least `10 ^ 309` is infinite and one below
`2 ^ -1080` is zero, so no large power is formed for them. -/
def ofDecimal (negative : Bool) (n : Nat) (k : Int) : Binary64 :=
  if n = 0 ∨ (n.log2 : Int) + 1 + 3 * k < -1080 then .finite negative 0 (-1074)
  else if 308 < k then .infinite negative
  else if 0 ≤ k then ofRatio negative (n * Nat.pow 10 k.toNat) 1
  else ofRatio negative n (Nat.pow 10 (-k).toNat)

/-- A magnitude as a fraction. -/
def ratio (m : Nat) (e : Int) : Nat × Nat := (m * Nat.pow 2 e.toNat, Nat.pow 2 (-e).toNat)

/-- Whether a number is infinite. -/
def isInfinite : Binary64 → Bool
  | .infinite _ => true
  | _ => false

/-- Whether a number is zero. -/
def isZero : Binary64 → Bool
  | .finite _ m _ => m == 0
  | _ => false

/-- The number with the other sign. -/
def neg : Binary64 → Binary64
  | .finite s m e => .finite (!s) m e
  | .infinite s => .infinite (!s)
  | .nan => .nan

/-- The product of two finite numbers; of others, no number. -/
def mul : Binary64 → Binary64 → Binary64
  | .finite s m e, .finite t n f =>
      let a := ratio m e
      let b := ratio n f
      ofRatio (s != t) (a.1 * b.1) (a.2 * b.2)
  | _, _ => .nan

/-- The quotient of two finite numbers, the second not zero; of others, no number. -/
def div : Binary64 → Binary64 → Binary64
  | .finite s m e, .finite t n f =>
      let a := ratio m e
      let b := ratio n f
      ofRatio (s != t) (a.1 * b.2) (a.2 * b.1)
  | _, _ => .nan

example : ofNat 1 = .finite false (Nat.pow 2 52) (-52) := by decide +kernel
example : ofNat (Nat.pow 2 53 + 1) = .finite false (Nat.pow 2 52) 1 := by decide +kernel
example : ofDecimal false 5 (-324) = .finite false 1 (-1074) := by decide +kernel

end Binary64

end Leasehold
