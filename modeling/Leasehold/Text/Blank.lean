import Leasehold.Text.Ranges

/-!
# Blank characters

The characters with the Unicode property of white space: 25 code points in ten ranges.  The property
has been the same since Unicode 6.3.
-/

namespace Leasehold.Text

/-- The closed ranges of blank code points, in order. -/
def blankRanges : List (Nat × Nat) :=
  [(0x09, 0x0D), (0x20, 0x20), (0x85, 0x85), (0xA0, 0xA0), (0x1680, 0x1680), (0x2000, 0x200A),
   (0x2028, 0x2029), (0x202F, 0x202F), (0x205F, 0x205F), (0x3000, 0x3000)]

/-- Whether a character is white space. -/
def isBlank (c : Char) : Bool := inRanges blankRanges c.toNat

example : isBlank ' ' = true ∧ isBlank 'a' = false := by decide

end Leasehold.Text
