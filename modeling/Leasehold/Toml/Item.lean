import Leasehold.Number.Shortest

/-!
# Items of a TOML document

The tree of a document.  A table is a list of entries in the order in which they were made.  What
may still be added to a table depends on how it came about: a table under a header of its own, one
that only stands on the way to another header, one made by a dotted key, or one written in line.

* A header may name a table that stands on the way to another, once; the table then comes last in
  its parent.
* A header of an element adds one to a list of tables.
* A dotted key goes through tables on the way and those made by dotted keys, and ends in one of the
  latter.  A table written in line takes nothing more.
* On the way, a list of tables stands for its last element.
-/

namespace Leasehold.Toml

/-- How a table came about. -/
inductive Origin where
  /-- By its own header. -/
  | header
  /-- On the way to another header. -/
  | implied
  /-- By a dotted key. -/
  | dotted
  /-- Written in line. -/
  | inline
deriving DecidableEq, Repr

/-- An item of a document. -/
inductive Item where
  | string (s : String)
  | integer (n : Int)
  | float (x : Binary64)
  | boolean (b : Bool)
  /-- A date, a time or both. -/
  | date
  | array (items : List Item)
  | table (origin : Origin) (entries : List (String × Item))
  /-- The tables under headers of elements. -/
  | tables (elements : List (List (String × Item)))
deriving Repr

instance : Inhabited Item := ⟨.boolean false⟩

/-- The entries of a table. -/
abbrev Entries := List (String × Item)

namespace Entries

/-- Puts a new entry last; fails if the key is taken. -/
def insertNew? (es : Entries) (key : String) (item : Item) : Option Entries :=
  if es.any (·.1 == key) then none else some (es ++ [(key, item)])

/-- Changes the item of a key, or makes one; fails if the change does. -/
def alter? (key : String) (change : Option Item → Option Item) : Entries → Option Entries
  | [] => (change none).map fun item => [(key, item)]
  | (k, item) :: rest =>
      if k = key then (change (some item)).map fun item => (k, item) :: rest
      else (alter? key change rest).map ((k, item) :: ·)

/-- Changes the table at the end of a path.  `byKey` tells a dotted key from a header.  The change
is told how the table came about. -/
def within? (byKey : Bool) (change : Origin → Entries → Option Entries) :
    (path : List String) → Origin → Entries → Option Entries
  | [], origin, es => change origin es
  | key :: path, _, es =>
      let step : Option Item → Option Item
        | none =>
            let origin := if byKey then .dotted else .implied
            (within? byKey change path origin []).map (.table origin)
        | some (.table origin inner) =>
            if origin = .inline ∨ (byKey ∧ origin = .header) then none
            else (within? byKey change path origin inner).map (.table origin)
        | some (.tables elements) =>
            match elements.getLast? with
            | none => none
            | some last =>
                (within? byKey change path .header last).map fun last =>
                  .tables (elements.dropLast ++ [last])
        | some _ => none
      alter? key step es

/-- Puts an item under a dotted key. -/
def put? (es : Entries) (path : List String) (key : String) (item : Item) : Option Entries :=
  within? true (fun origin es =>
    if path ≠ [] ∧ origin ≠ .dotted then none else es.insertNew? key item) path .header es

/-- Begins the table of a header. -/
def beginTable? (es : Entries) (path : List String) (key : String) : Option Entries :=
  within? false (fun _ es =>
    match es.find? (·.1 == key) with
    | none => some (es ++ [(key, .table .header [])])
    | some (_, .table .implied inner) =>
        some (es.filter (·.1 != key) ++ [(key, .table .header inner)])
    | some _ => none) path .header es

/-- Begins another element of a list of tables. -/
def beginElement? (es : Entries) (path : List String) (key : String) : Option Entries :=
  within? false (fun _ es =>
    alter? key (fun
      | none => some (.tables [[]])
      | some (.tables elements) => some (.tables (elements ++ [[]]))
      | some _ => none) es) path .header es

end Entries

end Leasehold.Toml
