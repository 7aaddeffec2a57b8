import Leasehold.Net.Ipv6
import Leasehold.Net.Path

/-!
# Addresses of servers

An address names a server by its host, and may say more: who asks, at which port, and a path, a
query and a fragment.  Its text has the scheme `redis` and two slashes in front.

The host is a name, or an address of the sixth version in brackets.  A name is any text without the
characters that delimit parts; it is kept as it is, but for controls and characters outside ASCII,
which are encoded.  A host is required.  The port is a number below 65536, written without leading
zeros, and may be left empty.

Before a text is read, blanks and controls at its end are dropped, and tabs and line breaks
anywhere.  What stands in front of the last `@` is the user's name, and behind its first colon the
password.  A backslash behind the port begins the path.
-/

namespace Leasehold

/-- A host. -/
inductive Host where
  /-- A name, encoded. -/
  | name (text : List Char)
  /-- An address. -/
  | ipv6 (address : Ipv6)
deriving DecidableEq, Repr

/-- An address of a server.  All text in it is encoded. -/
structure Url where
  /-- The name of the user; empty for none. -/
  user : List Char := []
  /-- The password; empty for none. -/
  password : List Char := []
  /-- The host. -/
  host : Host
  /-- The port, if it is given. -/
  port? : Option Nat := none
  /-- The path. -/
  path : Path := []
  /-- The query, if there is one. -/
  query? : Option (List Char) := none
  /-- The fragment, if there is one. -/
  fragment? : Option (List Char) := none
deriving DecidableEq, Repr

namespace Host

/-- The characters that a name of a host may not have. -/
def forbidden : List Char :=
  ['\x00', '\t', '\n', '\r', ' ', '#', '/', ':', '<', '>', '?', '@', '[', '\\', ']', '^', '|']

/-- The host of a text. -/
def ofText? (cs : List Char) : Option Host :=
  match cs with
  | [] => none
  | '[' :: rest => if rest.getLast? = some ']' then (Ipv6.ofText? rest.dropLast).map .ipv6 else none
  | cs =>
      if cs.any forbidden.contains then none
      else some (.name (Percent.encode Percent.isControl cs))

/-- The text of a host. -/
def text : Host → List Char
  | .name t => t
  | .ipv6 a => '[' :: a.text ++ [']']

end Host

namespace Url

/-! ## Writing -/

/-- What stands in front of an address. -/
def scheme : List Char := "redis://".toList

/-- The user and the password, with an `@` behind. -/
def userText (u : Url) : List Char :=
  match u.user, u.password with
  | [], [] => []
  | user, [] => user ++ ['@']
  | user, password => user ++ ':' :: password ++ ['@']

/-- A part behind a mark, if there is the part. -/
def marked (mark : Char) : Option (List Char) → List Char
  | some part => mark :: part
  | none => []

/-- The text of an address. -/
def text (u : Url) : List Char :=
  scheme ++ u.userText ++ u.host.text ++ marked ':' (u.port?.map Numeral.decimal) ++ u.path.text
    ++ marked '?' u.query? ++ marked '#' u.fragment?

/-! ## Reading -/

/-- Whether a character ends the part of the user and the host. -/
def endsAuthority (c : Char) : Bool := ['/', '?', '#'].contains c

/-- The text in front of the last `@` before the end of the authority, and the text behind. -/
def splitUser (cs : List Char) : List Char × List Char :=
  let authority := cs.takeWhile (!endsAuthority ·)
  let behind := (authority.reverse.takeWhile (· != '@')).length
  let front := authority.length - behind
  if front = 0 then ([], cs) else (cs.take (front - 1), cs.drop front)

/-- The length of the text of a host: up to the first delimiter, colons in brackets not counted. -/
def hostLength (inBrackets : Bool) : List Char → Nat
  | [] => 0
  | c :: rest =>
      if endsAuthority c ∨ (c = ':' ∧ ¬inBrackets) then 0
      else hostLength (if c = '[' then true else if c = ']' then false else inBrackets) rest + 1

/-- A port, if one is given, and the rest.  None if the number is too large or ends badly. -/
def portAndRest? (cs : List Char) : Option (Option Nat × List Char) :=
  match cs with
  | ':' :: cs =>
      let ds := cs.takeWhile Numeral.isDigit
      let rest := cs.dropWhile Numeral.isDigit
      let port := Numeral.value ds
      if 65535 < port then none
      else if rest.head?.all (['/', '\\', '?', '#'].contains ·) then
        some (if ds = [] then none else some port, rest)
      else none
  | cs => some (none, cs)

/-- The path in front of a query or a fragment, and the rest. -/
def pathAndRest (cs : List Char) : Path × List Char :=
  let text := cs.takeWhile fun c => c != '?' && c != '#'
  let path := match text with
    | [] => []
    | '/' :: _ => Path.ofText text
    | text => Path.ofText ('/' :: text)
  (path, cs.dropWhile fun c => c != '?' && c != '#')

/-- The query and the fragment of a rest. -/
def queryAndFragment (cs : List Char) : Option (List Char) × Option (List Char) :=
  let fragment? : List Char → Option (List Char)
    | '#' :: rest => some (Percent.encode Percent.inFragment rest)
    | _ => none
  match cs with
  | '?' :: rest =>
      (some (Percent.encode Percent.inQuery (rest.takeWhile (· != '#'))),
        fragment? (rest.dropWhile (· != '#')))
  | cs => (none, fragment? cs)

/-- Whether a character is dropped wherever it stands. -/
def isDropped (c : Char) : Bool := ['\t', '\n', '\r'].contains c

/-- Whether a character is dropped at the end of a text. -/
def isDroppedAtEnd (c : Char) : Bool := decide (c.toNat ≤ 0x20)

/-- A text without the characters that are dropped. -/
def cleaned (cs : List Char) : List Char :=
  (((cs.dropWhile isDroppedAtEnd).reverse.dropWhile isDroppedAtEnd).reverse).filter (!isDropped ·)

/-- The address of a text behind the scheme. -/
def ofAuthority? (cs : List Char) : Option Url := do
  let (user, cs) := splitUser cs
  let length := hostLength false cs
  let host ← Host.ofText? (cs.take length)
  let (port?, cs) ← portAndRest? (cs.drop length)
  let (path, cs) := pathAndRest cs
  let (query?, fragment?) := queryAndFragment cs
  let encoded := Percent.encode Percent.inUser
  some {
    user := encoded (user.takeWhile (· != ':'))
    password := encoded ((user.dropWhile (· != ':')).drop 1)
    host, port?, path, query?, fragment? }

/-- The address of a text. -/
def ofText? (cs : List Char) : Option Url :=
  (scheme.isPrefixOf? (cleaned cs)).bind ofAuthority?

/-- The address with another password. -/
def withPassword (u : Url) (password : List Char) : Url :=
  { u with password := Percent.encode Percent.inUser password }

end Url

end Leasehold
