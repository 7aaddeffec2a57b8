import Leasehold.Net.Percent

/-!
# Paths of addresses

A path is a list of segments, each written behind a slash.  When a path is read, a segment `.` goes
and a segment `..` takes the segment before it along; either leaves an empty segment if it is the
last one.  A dot may be written `%2e`.  A segment that names a drive, such as `C:`, stays where it
is.
-/

namespace Leasehold

/-- A path: its segments, encoded. -/
abbrev Path := List (List Char)

namespace Path

/-- The spellings of a dot. -/
def dotSpellings : List (List Char) := [['.'], ['%', '2', 'e'], ['%', '2', 'E']]

/-- Whether a segment stands for the place it is in. -/
def isDot (segment : List Char) : Bool := dotSpellings.contains segment

/-- Whether a segment stands for the place above. -/
def isDoubleDot (segment : List Char) : Bool :=
  dotSpellings.any fun a => dotSpellings.any fun b => a ++ b == segment

/-- Whether a segment names a drive: a letter, and a colon or a bar, and then nothing or a
backslash. -/
def isDrive : List Char → Bool
  | a :: b :: rest =>
      a.isAlpha && [':', '|'].contains b && (rest == [] || rest.head? == some '\\')
  | _ => false

/-- The segments without the last one, unless that names a drive.  The list is in reverse. -/
def up : List (List Char) → List (List Char)
  | [] => []
  | segment :: rest => if isDrive segment then segment :: rest else rest

/-- Resolves the dots in a list of segments, behind segments that are resolved, in reverse. -/
def resolveAfter (done : List (List Char)) : List (List Char) → List (List Char)
  | [] => done.reverse
  | segment :: rest =>
      let last := if rest = [] then [[]] else []
      if isDoubleDot segment then resolveAfter (last ++ up done) rest
      else if isDot segment then resolveAfter (last ++ done) rest
      else resolveAfter (segment :: done) rest

/-- The path of a text, which begins with a slash. -/
def ofText (cs : List Char) : Path :=
  resolveAfter [] ((cs.splitOn '/').tail.map (Percent.encode Percent.inPath))

/-- The text of a path. -/
def text (p : Path) : List Char := p.flatMap ('/' :: ·)

example : text (ofText ['/', 'a', '/', '.', '.']) = ['/'] := by decide +kernel
example : text (ofText ['/', '.', '/', 'x']) = ['/', 'x'] := by decide +kernel
example : text (ofText ['/', 'C', ':', '/', '.', '.']) = ['/', 'C', ':', '/'] := by decide +kernel

end Path

end Leasehold
