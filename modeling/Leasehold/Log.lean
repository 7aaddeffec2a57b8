/-!
# Log records

What locks, pools and traced wrappers tell an observer.  A record has a level, a message and named
fields; inside a traced call it also carries the span of that call.
-/

namespace Leasehold.Log

/-- How much a record matters. -/
inductive Level where
  | trace
  | debug
  | info
  | warn
  | error
deriving DecidableEq, Repr

/-- The value of a field. -/
inductive Value where
  /-- A text. -/
  | text (s : String)
  /-- A number. -/
  | number (n : Nat)
  /-- A truth value. -/
  | flag (b : Bool)
deriving DecidableEq, Repr

/-- The call in which a record was written. -/
structure Span where
  /-- The level of the span. -/
  level : Level
  /-- What is called. -/
  name : String
  /-- The arguments shown. -/
  fields : List (String × Value)
deriving DecidableEq, Repr

/-- One entry of the log. -/
structure Record where
  /-- The level of the record. -/
  level : Level
  /-- What happened. -/
  message : String
  /-- The details. -/
  fields : List (String × Value) := []
  /-- The traced call around it, if there is one. -/
  span? : Option Span := none
deriving DecidableEq, Repr

end Leasehold.Log
