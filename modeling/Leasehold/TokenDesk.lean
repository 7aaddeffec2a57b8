import Leasehold.Json.Text
import Leasehold.Text.Quoted
import Leasehold.Text.Utf8
import Leasehold.Token

/-!
# Trying out owner tokens

A desk gives out owner tokens.  Its generators have numbers, in the order in which they were set up.
A counting generator and its copies share one sequence; a random generator has nothing to share.

A step sets up a generator, copies one, takes a token from one or brings a token along.  Of every
token the desk tells whether it is the one that was seen last.
-/

namespace Leasehold.TokenDesk

/-- What gives out tokens. -/
inductive Generator where
  /-- It takes from the sequence of a number. -/
  | counting (sequence : Nat)
  /-- It makes random tokens behind a label. -/
  | random (label? : Option String)
deriving DecidableEq, Repr

/-- Whether the tokens of a generator are random. -/
def Generator.isRandom : Generator → Bool
  | .counting _ => false
  | .random _ => true

/-- A desk. -/
structure Desk where
  /-- The random bits it draws. -/
  randomness : Randomness
  /-- Its sequences. -/
  sequences : List OwnerSequence := []
  /-- Its generators. -/
  generators : List Generator := []
  /-- The token seen last. -/
  last? : Option String := none

/-- A step at a desk. -/
inductive Step where
  /-- Set up a counting generator. -/
  | sequential (label : String)
  /-- Set up a random generator. -/
  | random (label? : Option String)
  /-- Copy a generator. -/
  | copy (generator : Nat)
  /-- Take a token from a generator. -/
  | next (generator : Nat)
  /-- Bring a token along. -/
  | token (text : String)
deriving Repr

/-- What comes of a step. -/
inductive Result where
  /-- It was carried out. -/
  | ok
  /-- A token was taken; whether it is random, and whether it is the last one again. -/
  | taken (token : String) (random : Bool) (sameAsLast : Bool)
  /-- A token was brought along; whether it is the last one again. -/
  | brought (token : String) (sameAsLast : Bool)
  /-- There is no such generator. -/
  | missing
deriving Repr

namespace Desk

/-- Takes a token from a generator. -/
def take (d : Desk) : Generator → String × Desk
  | .counting i =>
      let (token, s) := (d.sequences[i]?.getD {}).take
      (token, { d with sequences := d.sequences.set i s })
  | .random label? =>
      let (bits, randomness) := d.randomness.draw
      (RandomToken.token label? bits, { d with randomness })

/-- Whether a token is the one seen last, and the desk that has seen it. -/
def see (d : Desk) (token : String) : Bool × Desk :=
  (d.last? == some token, { d with last? := some token })

/-- The desk with one more generator. -/
def withGenerator (d : Desk) (g : Generator) : Desk := { d with generators := d.generators ++ [g] }

/-- Carries out a step. -/
def perform (d : Desk) : Step → Result × Desk
  | .sequential label =>
      let sequences := d.sequences ++ [({ label } : OwnerSequence)]
      (.ok, ({ d with sequences } : Desk).withGenerator (.counting d.sequences.length))
  | .random label? => (.ok, d.withGenerator (.random label?))
  | .copy i =>
      match d.generators[i]? with
      | some g => (.ok, d.withGenerator g)
      | none => (.missing, d)
  | .next i =>
      match d.generators[i]? with
      | some g =>
          let (token, d) := d.take g
          let (same, d) := d.see token
          (.taken token g.isRandom same, d)
      | none => (.missing, d)
  | .token text =>
      let (same, d) := d.see text
      (.brought text same, d)

end Desk

/-- Carries out steps at a new desk. -/
def run (randomness : Randomness) (steps : List Step) : List Result :=
  (steps.foldl (fun (acc : List Result × Desk) step =>
    let (r, d) := acc.2.perform step
    (acc.1 ++ [r], d)) ([], { randomness })).1

/-! ## How tokens are shown -/

/-- A token in a message. -/
def shown (token : String) : String := "OwnerToken(" ++ Text.quoted token ++ ")"

/-- A token in JSON. -/
def json (token : String) : String := String.ofList (Json.textOf token.toList)

/-- How many octets a token takes. -/
def octets (token : String) : Nat := (Utf8.encode token.toList).length

end Leasehold.TokenDesk
