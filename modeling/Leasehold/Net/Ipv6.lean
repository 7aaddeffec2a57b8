import Leasehold.Text.Numeral

/-!
# Addresses of the sixth version of the Internet protocol

An address is eight groups of sixteen bits, written in hexadecimal with colons between.  Two colons
stand for at least one group that is zero, once in an address.  The last two groups may be written
as four decimal numbers with dots.

An address is written with the first of the longest runs of at least two zero groups left out.
-/

namespace Leasehold

/-- An address: eight groups. -/
structure Ipv6 where
  /-- The groups, the first one in front. -/
  groups : List Nat
deriving DecidableEq, Repr

namespace Ipv6

/-! ## Reading -/

/-- A group: one to four hexadecimal digits. -/
def group? (cs : List Char) : Option Nat :=
  if cs = [] ∨ 4 < cs.length then none else Numeral.value? 16 cs

/-- A decimal number of at most 255 without needless zeros. -/
def byte? (cs : List Char) : Option Nat :=
  if cs = [] ∨ (1 < cs.length ∧ cs.head? = some '0') then none
  else (Numeral.value? 10 cs).filter (· ≤ 255)

/-- Four numbers with dots between, as two groups. -/
def dotted? (cs : List Char) : Option (List Nat) :=
  match (cs.splitOn '.').mapM byte? with
  | some [a, b, c, d] => some [256 * a + b, 256 * c + d]
  | _ => none

/-- The groups of a list of pieces, of which the last may be dotted. -/
def groupsOf? : List (List Char) → Option (List Nat)
  | [] => some []
  | [last] => if last.contains '.' then dotted? last else (group? last).map ([·])
  | piece :: rest => do
      let n ← group? piece
      (groupsOf? rest).map (n :: ·)

/-- The text in front of the first two colons that stand together, and the text behind. -/
def splitAtGap : List Char → Option (List Char × List Char)
  | ':' :: ':' :: rest => some ([], rest)
  | c :: rest => (splitAtGap rest).map fun (front, back) => (c :: front, back)
  | [] => none

/-- The groups of one side of two colons; there may be none. -/
def side? (cs : List Char) (dots : Bool) : Option (List Nat) :=
  if cs = [] then some []
  else if dots then groupsOf? (cs.splitOn ':') else (cs.splitOn ':').mapM group?

/-- The address of a text. -/
def ofText? (cs : List Char) : Option Ipv6 :=
  match splitAtGap cs with
  | none => ((groupsOf? (cs.splitOn ':')).filter (·.length = 8)).map Ipv6.mk
  | some (front, back) => do
      let front ← side? front false
      let back ← side? back true
      let zeros := 8 - (front.length + back.length)
      if zeros = 0 then none else some ⟨front ++ List.replicate zeros 0 ++ back⟩

/-! ## Writing -/

/-- The number of zeros in front of a list. -/
def zerosInFront (l : List Nat) : Nat := (l.takeWhile (· == 0)).length

/-- The first of the longest runs of zeros in a list: where it begins and how long it is. -/
def longestRun : List Nat → Nat × Nat
  | [] => (0, 0)
  | n :: rest =>
      let here := zerosInFront (n :: rest)
      let (start, length) := longestRun rest
      if here ≠ 0 ∧ length ≤ here then (0, here) else (start + 1, length)

/-- Groups with colons between. -/
def joined (l : List Nat) : List Char := [':'].intercalate (l.map (Numeral.inBase 16))

/-- The text of an address. -/
def text (a : Ipv6) : List Char :=
  let (start, length) := longestRun a.groups
  if length < 2 then joined a.groups
  else joined (a.groups.take start) ++ [':', ':'] ++ joined (a.groups.drop (start + length))

example : (ofText? [':', ':', '1', '.', '2', '.', '3', '.', '4']).map text
    = some [':', ':', '1', '0', '2', ':', '3', '0', '4'] := by decide +kernel
example : text ⟨[1, 0, 0, 2, 0, 0, 0, 3]⟩
    = ['1', ':', '0', ':', '0', ':', '2', ':', ':', '3'] := by decide +kernel

end Ipv6

end Leasehold
