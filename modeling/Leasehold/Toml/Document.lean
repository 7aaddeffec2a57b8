import Leasehold.Toml.Scalar

/-!
# TOML documents

A document is a series of lines: headers of tables, headers of elements, and keys with values.  A
value that holds others may go on over several lines, one written in line may not.  A byte order
mark may come first.

Keys have less than eighty parts and values are nested less than eighty deep.
-/

namespace Leasehold.Toml

/-! ## Between the parts -/

/-- How many parts a key may have, and how deep values may be nested. -/
def depthLimit : Nat := 79

/-- A text without the blanks in front. -/
def skipBlanks (cs : List Char) : List Char := cs.dropWhile isBlank

/-- A text without blanks, line breaks and comments in front; `inComment` tells whether the text
begins in a comment. -/
def skipLines (inComment : Bool) : List Char → List Char
  | [] => []
  | '\r' :: '\n' :: rest => skipLines false rest
  | c :: rest =>
      if c = '\n' then skipLines false rest
      else if inComment then if isPlain c then skipLines true rest else c :: rest
      else if c = '#' then skipLines true rest
      else if isBlank c then skipLines false rest
      else c :: rest

/-- The rest behind the end of a line; a comment may stand before it. -/
def lineEnd? (cs : List Char) : Option (List Char) :=
  let cs := match skipBlanks cs with
    | '#' :: rest => rest.dropWhile isPlain
    | cs => cs
  match cs with
  | [] => some []
  | '\n' :: rest => some rest
  | '\r' :: '\n' :: rest => some rest
  | _ => none

/-! ## Keys -/

/-- Whether a character may stand in a key without quotes. -/
def isKeyChar (c : Char) : Bool := c.isAlphanum || c == '-' || c == '_'

/-- One part of a key. -/
def keyPart? (cs : List Char) : Option (String × List Char) :=
  match cs with
  | '"' :: _ | '\'' :: _ => (lineText? cs).map fun (s, rest) => (String.ofList s, rest)
  | cs =>
      let name := cs.takeWhile isKeyChar
      if name = [] then none else some (String.ofList name, cs.dropWhile isKeyChar)

/-- A key of at most so many parts, with blanks around them: all parts but the last, and the last. -/
def key? : (parts : Nat) → List Char → Option ((List String × String) × List Char)
  | 0, _ => none
  | parts + 1, cs => do
      let (part, cs) ← keyPart? (skipBlanks cs)
      match skipBlanks cs with
      | '.' :: cs => do
          let ((path, last), cs) ← key? parts cs
          some ((part :: path, last), cs)
      | cs => some (([], part), cs)

/-! ## Values -/

/-- The items of an array behind its bracket, each read by `item?`. -/
def items? (item? : Reader Item) : (fuel : Nat) → Reader (List Item)
  | 0, _ => none
  | fuel + 1, cs =>
      match skipLines false cs with
      | ']' :: rest => some ([], rest)
      | cs => do
          let (item, cs) ← item? cs
          match skipLines false cs with
          | ',' :: rest => do
              let (items, rest) ← items? item? fuel rest
              some (item :: items, rest)
          | ']' :: rest => some ([item], rest)
          | _ => none

/-- The entries of a table in line, behind those that have been read; there is one more at least. -/
def pairs? (item? : Reader Item) : (fuel : Nat) → Entries → Reader Entries
  | 0, _, _ => none
  | fuel + 1, es, cs => do
      let ((path, key), cs) ← key? depthLimit cs
      let cs ← expect? '=' cs
      let (item, cs) ← item? (skipBlanks cs)
      let es ← es.put? path key item
      match skipBlanks cs with
      | ',' :: rest => pairs? item? fuel es rest
      | '\x7d' :: rest => some (es, rest)
      | _ => none

/-- A value nested at most so deep. -/
def value? : (depth : Nat) → Reader Item
  | 0, cs => scalar? cs
  | depth + 1, cs =>
      match cs with
      | '[' :: rest =>
          (items? (value? depth) (rest.length + 1) rest).map fun (items, rest) =>
            (.array items, rest)
      | '\x7b' :: rest =>
          match skipBlanks rest with
          | '\x7d' :: rest => some (.table .inline [], rest)
          | rest =>
              (pairs? (value? depth) (rest.length + 1) [] rest).map fun (es, rest) =>
                (.table .inline es, rest)
      | cs => scalar? cs

/-! ## Lines -/

/-- What has been read of a document: its entries, and the header that keys belong to. -/
structure State where
  /-- The entries. -/
  root : Entries := []
  /-- The path of the header. -/
  path : List String := []

/-- Puts an item under a key of the table of the current header. -/
def State.put? (s : State) (path : List String) (key : String) (item : Item) : Option State :=
  (Entries.within? false (fun _ es => es.put? path key item) s.path .header s.root).map fun root =>
    { s with root }

/-- Begins the table or the element of a header. -/
def State.begin? (s : State) (element : Bool) (path : List String) (key : String) : Option State :=
  let root? := if element then s.root.beginElement? path key else s.root.beginTable? path key
  root?.map fun root => { root, path := path ++ [key] }

/-- Reads a header, from behind its brackets. -/
def header? (s : State) (element : Bool) (cs : List Char) : Option (State × List Char) := do
  let ((path, key), cs) ← key? depthLimit cs
  let cs ← expect? ']' cs
  let cs ← if element then expect? ']' cs else some cs
  let cs ← lineEnd? cs
  let s ← s.begin? element path key
  some (s, cs)

/-- Reads a line with a key and a value. -/
def pair? (s : State) (cs : List Char) : Option (State × List Char) := do
  let ((path, key), cs) ← key? depthLimit cs
  let cs ← expect? '=' cs
  let (item, cs) ← value? depthLimit (skipBlanks cs)
  let cs ← lineEnd? cs
  let s ← s.put? path key item
  some (s, cs)

/-- Reads the lines of a document, at most so many. -/
def lines? : (fuel : Nat) → State → List Char → Option State
  | 0, _, _ => none
  | fuel + 1, s, cs =>
      match skipBlanks cs with
      | [] => some s
      | '#' :: _ | '\n' :: _ | '\r' :: _ => do
          let cs ← lineEnd? cs
          lines? fuel s cs
      | '[' :: '[' :: rest => do
          let (s, cs) ← header? s true rest
          lines? fuel s cs
      | '[' :: rest => do
          let (s, cs) ← header? s false rest
          lines? fuel s cs
      | cs => do
          let (s, cs) ← pair? s cs
          lines? fuel s cs

/-- The entries of a document. -/
def document? (cs : List Char) : Option Entries :=
  let cs := match cs with
    | '\uFEFF' :: rest => rest
    | cs => cs
  (lines? (cs.length + 1) {} cs).map State.root

end Leasehold.Toml
