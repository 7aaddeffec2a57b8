import Leasehold.Redis.Client

/-!
# Replies of a Redis server

A reply is a status, a number, a text, nothing, a list or an error; or the connection is dropped
instead.  An error is a line whose first word tells its kind.

A caller wants either a number or a text that may be missing.  A number may also come as a text in
decimal digits, and a text as a number.
-/

namespace Leasehold.Redis

/-- A reply. -/
inductive Reply where
  /-- A status in one word. -/
  | status (s : String)
  /-- Nothing. -/
  | nothing
  /-- A number. -/
  | number (n : Int)
  /-- A text. -/
  | text (s : String)
  /-- A list. -/
  | list
  /-- An error. -/
  | error (line : String)
  /-- The connection is dropped. -/
  | dropped
deriving DecidableEq, Repr

/-- Why a command failed. -/
inductive Failure where
  /-- The store reports an error. -/
  | store (e : StoreError)
  /-- The reply is of no use to the caller. -/
  | unreadable
  /-- The connection was dropped. -/
  | dropped
deriving DecidableEq, Repr

/-- What comes of a command. -/
abbrev Outcome (α : Type) := Except Failure α

/-! ## Errors -/

/-- The kinds of error that are known by their first word. -/
def errorKinds : List (String × String) :=
  [ ("ERR", "ResponseError"), ("EXECABORT", "ExecAbort"), ("LOADING", "BusyLoading"),
    ("NOSCRIPT", "NoScript"), ("MOVED", "Moved"), ("ASK", "Ask"), ("TRYAGAIN", "TryAgain"),
    ("CLUSTERDOWN", "ClusterDown"), ("CROSSSLOT", "CrossSlot"), ("MASTERDOWN", "MasterDown"),
    ("READONLY", "ReadOnly"), ("NOTBUSY", "NotBusy"), ("NOSUB", "NoSub"), ("NOPERM", "NoPerm") ]

/-- The first word of an error line. -/
def errorCode (line : String) : String := String.ofList (line.toList.takeWhile (· != ' '))

/-- The text of an error line: its kind, and behind a colon what follows the first word. -/
def errorText (line : String) : String :=
  let code := errorCode line
  let kind := match errorKinds.lookup code with
    | some name => name
    | none => Text.quoted code
  match line.toList.dropWhile (· != ' ') with
  | [] => kind
  | _ :: detail => kind ++ ": " ++ String.ofList detail

/-! ## What callers want -/

namespace Reply

/-- A reply that is wanted only to be no error. -/
def accepted : Reply → Outcome Unit
  | .error line => .error (.store (.command (errorText line)))
  | .dropped => .error .dropped
  | _ => .ok ()

/-- A number. -/
def toNumber : Reply → Outcome Int
  | .number n => .ok n
  | .status s | .text s =>
      match wholeNumber? s.toList with
      | some n => .ok n
      | none => .error .unreadable
  | .nothing | .list => .error .unreadable
  | .error line => .error (.store (.command (errorText line)))
  | .dropped => .error .dropped

/-- A text, or nothing. -/
def toText? : Reply → Outcome (Option String)
  | .nothing => .ok none
  | .status s | .text s => .ok (some s)
  | .number n => .ok (some (toString n))
  | .list => .error .unreadable
  | .error line => .error (.store (.command (errorText line)))
  | .dropped => .error .dropped

/-- Whether the server does not know a script. -/
def unknownScript : Reply → Bool
  | .error line => errorCode line == "NOSCRIPT"
  | _ => false

end Reply

end Leasehold.Redis
