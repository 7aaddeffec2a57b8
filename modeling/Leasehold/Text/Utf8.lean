/-!
# UTF-8

A character is one to four octets.  The first octet tells how many follow, the others begin with the
bits `10`.  A character has one form, the shortest; the surrogates and the numbers above U+10FFFF
have none.

`decode` takes a list of octets apart and refuses one that is not the form of a text.  The numbers
stand for octets, so no form has one above 255.
-/

namespace Leasehold.Utf8

/-- The octets of a character. -/
def encodeChar (c : Char) : List Nat :=
  let n := c.toNat
  if n < 0x80 then [n]
  else if n < 0x800 then [0xC0 + n / 64, 0x80 + n % 64]
  else if n < 0x10000 then [0xE0 + n / 4096, 0x80 + n / 64 % 64, 0x80 + n % 64]
  else [0xF0 + n / 262144, 0x80 + n / 4096 % 64, 0x80 + n / 64 % 64, 0x80 + n % 64]

/-- The octets of a text. -/
def encode (cs : List Char) : List Nat := cs.flatMap encodeChar

/-- The six bits of an octet that follows a first one. -/
def tail? (b : Nat) : Option Nat := if 0x80 ≤ b ∧ b ≤ 0xBF then some (b - 0x80) else none

/-- A code point above a bound that is a character. -/
def charAbove? (least n : Nat) : Option Char :=
  if least ≤ n ∧ n.isValidChar then some (Char.ofNat n) else none

/-- The text of a list of octets. -/
def decode : List Nat → Option (List Char)
  | [] => some []
  | a :: rest =>
      if a < 0x80 then (decode rest).map (Char.ofNat a :: ·)
      else if 0xC0 ≤ a ∧ a < 0xE0 then
        match rest with
        | b :: rest => do
            let b ← tail? b
            let c ← charAbove? 0x80 ((a - 0xC0) * 64 + b)
            (decode rest).map (c :: ·)
        | _ => none
      else if 0xE0 ≤ a ∧ a < 0xF0 then
        match rest with
        | b :: c :: rest => do
            let b ← tail? b
            let c ← tail? c
            let c ← charAbove? 0x800 ((a - 0xE0) * 4096 + b * 64 + c)
            (decode rest).map (c :: ·)
        | _ => none
      else if 0xF0 ≤ a ∧ a < 0xF8 then
        match rest with
        | b :: c :: d :: rest => do
            let b ← tail? b
            let c ← tail? c
            let d ← tail? d
            let c ← charAbove? 0x10000 ((a - 0xF0) * 262144 + b * 4096 + c * 64 + d)
            (decode rest).map (c :: ·)
        | _ => none
      else none

example : decode (encode ['a', 'é', '日', '😀']) = some ['a', 'é', '日', '😀'] := by decide
example : decode [0xC0, 0x80] = none := by decide
example : decode [0xED, 0xA0, 0x80] = none := by decide

end Leasehold.Utf8
