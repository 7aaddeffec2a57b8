import Leasehold.Text.Numeral

/-!
# Owner tokens

A token is the text that a holder writes under the key of a lock.  Whoever knows the token may
release the lock, so tokens of different acquisitions have to differ.

A sequence of tokens counts: its tokens are a label, a dash and the numbers from one on.  It counts
in a 64-bit word, which starts over at zero when it is full.

A random token has the form of a version 4 identifier: 32 hexadecimal digits in five groups, of
which one digit tells the version and the upper two bits of another the variant.  The random bits
are handed in, a number for each draw.  In reports the random digits are masked.
-/

namespace Leasehold

/-! ## Counted tokens -/

/-- A sequence of owner tokens. -/
structure OwnerSequence where
  /-- What the tokens begin with. -/
  label : String := "owner"
  /-- The number of the next token. -/
  next : UInt64 := 1
deriving DecidableEq, Repr

namespace OwnerSequence

/-- The token with a number. -/
def token (label : String) (n : Nat) : String :=
  label ++ "-" ++ String.ofList (Numeral.decimal n)

/-- Takes the next token. -/
def take (s : OwnerSequence) : String × OwnerSequence :=
  (token s.label s.next.toNat, { s with next := s.next + 1 })

end OwnerSequence

/-! ## Random tokens -/

namespace RandomToken

/-- The last `count` hexadecimal digits of a number, the first one in front. -/
def hexDigits : (count n : Nat) → List Nat
  | 0, _ => []
  | count + 1, n => hexDigits count (n / 16) ++ [n % 16]

/-- A version 4 identifier from 122 random bits. -/
def identifier (bits : Nat) : List Char :=
  let text (l : List Nat) : List Char := l.map Numeral.digitChar
  let a := hexDigits 12 (bits / Nat.pow 2 74)
  let b := hexDigits 3 (bits / Nat.pow 2 62)
  let c := (8 + bits / Nat.pow 2 60 % 4) :: hexDigits 3 (bits / Nat.pow 2 48)
  let d := hexDigits 12 bits
  text (a.take 8) ++ '-' :: text (a.drop 8) ++ '-' :: text (4 :: b) ++ '-' :: text c
    ++ '-' :: text d

/-- A random token: an identifier, behind a label and a colon if there is a label. -/
def token (label? : Option String) (bits : Nat) : String :=
  match label? with
  | none => String.ofList (identifier bits)
  | some label => label ++ ":" ++ String.ofList (identifier bits)

/-- One character of an identifier, masked.  The digit of the version is shown. -/
def maskChar (i : Nat) (c : Char) : Char :=
  if i = 19 ∧ c ∈ ['8', '9', 'a', 'b'] then 'v'
  else if (i = 14 ∧ c = '4') ∨ (Numeral.hexDigit? c).isNone then c
  else 'x'

/-- A token with the random digits of its last 36 characters masked. -/
def masked (token : String) : String :=
  let cs := token.toList
  let n := cs.length - 36
  String.ofList (cs.take n ++ (cs.drop n).mapIdx maskChar)

end RandomToken

/-! ## Sources -/

/-- Random bits, a number for each draw. -/
structure Randomness where
  /-- The bits of each draw. -/
  bits : Nat → Nat
  /-- How many draws have been made. -/
  drawn : Nat := 0

/-- The bits of the next draw. -/
def Randomness.draw (r : Randomness) : Nat × Randomness :=
  (r.bits r.drawn, { r with drawn := r.drawn + 1 })

/-- Where owner tokens come from. -/
inductive OwnerSource where
  /-- They are counted. -/
  | counted (s : OwnerSequence)
  /-- They are random. -/
  | random (r : Randomness)

/-- Takes the next token. -/
def OwnerSource.take : OwnerSource → String × OwnerSource
  | .counted s =>
      let (token, s) := s.take
      (token, .counted s)
  | .random r =>
      let (bits, r) := r.draw
      (RandomToken.token none bits, .random r)

end Leasehold
