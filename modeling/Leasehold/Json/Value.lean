import Leasehold.Json.Number
import Leasehold.Json.Text

/-!
# Values in JSON

The tree of a JSON text.  The reader never fails as a whole: where the text stops being JSON, the
tree stops too, and every array and object around the place is marked as not closed.  So whoever
takes the tree apart from the front sees all there was before the fault.
-/

namespace Leasehold.Json

/-- A value. -/
inductive Value where
  | null
  | boolean (b : Bool)
  /-- A number; one that is too large has no value. -/
  | number (n? : Option Number)
  /-- A text; one with a surrogate alone has no value. -/
  | text (s? : Option String)
  /-- A list of values, and whether it was closed. -/
  | array (items : List Value) (closed : Bool)
  /-- A list of members, and whether it was closed.  A member without a name holds what stood where
  a name was expected, or nothing if the name had a surrogate alone. -/
  | object (members : List (Option String × Value)) (closed : Bool)
  /-- What is no value. -/
  | broken
deriving Repr

instance : Inhabited Value := ⟨.null⟩

/-! ## Writing -/

/-- One member of an object: its name and its value, written. -/
def memberOf (field : String × List Char) : List Char := textOf field.1.toList ++ ':' :: field.2

/-- An object of members whose values are written. -/
def objectOf (fields : List (String × List Char)) : List Char :=
  '\x7b' :: [','].intercalate (fields.map memberOf) ++ ['\x7d']

/-! ## Reading -/

/-- Whether a character may stand between the parts of a text. -/
def isSpace (c : Char) : Bool := [' ', '\n', '\r', '\t'].contains c

/-- A text without the spaces in front. -/
def skipSpaces (cs : List Char) : List Char := cs.dropWhile isSpace

/-- What was read, and the rest of the text if it is JSON so far. -/
abbrev Read (α : Type) := α × Option (List Char)

/-- A text behind its opening quote. -/
def readText (cs : List Char) : Read Value :=
  match text? cs with
  | some (s?, rest) => (.text (s?.map String.ofList), some rest)
  | none => (.broken, none)

/-- A number. -/
def readNumber (cs : List Char) : Read Value :=
  match Number.ofText? cs with
  | some (n?, rest) => (.number n?, some rest)
  | none => (.broken, none)

mutual

/-- The value at the front of a text. -/
def readValue : (fuel : Nat) → List Char → Read Value
  | 0, _ => (.broken, none)
  | fuel + 1, cs =>
      match skipSpaces cs with
      | 'n' :: 'u' :: 'l' :: 'l' :: rest => (.null, some rest)
      | 't' :: 'r' :: 'u' :: 'e' :: rest => (.boolean true, some rest)
      | 'f' :: 'a' :: 'l' :: 's' :: 'e' :: rest => (.boolean false, some rest)
      | '"' :: rest => readText rest
      | '[' :: rest =>
          match skipSpaces rest with
          | ']' :: rest => (.array [] true, some rest)
          | _ =>
              let (items, rest?) := readItems fuel rest
              (.array items rest?.isSome, rest?)
      | '\x7b' :: rest =>
          match skipSpaces rest with
          | '\x7d' :: rest => (.object [] true, some rest)
          | _ =>
              let (members, rest?) := readMembers fuel rest
              (.object members rest?.isSome, rest?)
      | cs => readNumber cs

/-- The items of an array up to its closing bracket; there is at least one. -/
def readItems : (fuel : Nat) → List Char → Read (List Value)
  | 0, _ => ([], none)
  | fuel + 1, cs =>
      match readValue fuel cs with
      | (v, none) => ([v], none)
      | (v, some rest) =>
          match skipSpaces rest with
          | ',' :: rest =>
              let (vs, rest?) := readItems fuel rest
              (v :: vs, rest?)
          | ']' :: rest => ([v], some rest)
          | _ => ([v], none)

/-- The members of an object up to its closing brace; there is at least one. -/
def readMembers : (fuel : Nat) → List Char → Read (List (Option String × Value))
  | 0, _ => ([], none)
  | fuel + 1, cs =>
      match skipSpaces cs with
      | '"' :: rest =>
          match text? rest with
          | none => ([(none, .broken)], none)
          | some (name?, rest) =>
              let member (v : Value) : Option String × Value :=
                match name? with
                | some name => (some (String.ofList name), v)
                | none => (none, .broken)
              match skipSpaces rest with
              | ':' :: rest =>
                  match readValue fuel rest with
                  | (v, none) => ([member v], none)
                  | (v, some rest) =>
                      match skipSpaces rest with
                      | ',' :: rest =>
                          let (members, rest?) := readMembers fuel rest
                          (member v :: members, rest?)
                      | '\x7d' :: rest => ([member v], some rest)
                      | _ => ([member v], none)
              | _ => ([member .broken], none)
      | cs => ([(none, (readValue fuel cs).1)], none)

end

/-- The value of a text, and whether nothing but spaces follows. -/
def read (cs : List Char) : Value × Bool :=
  let (v, rest?) := readValue (2 * cs.length + 2) cs
  (v, match rest? with
    | some rest => skipSpaces rest == []
    | none => false)

end Leasehold.Json
