import Leasehold.Settings.Basic
import Leasehold.Store.Request

/-!
# Clients of a Redis server

A client is made from the URL of a server.  The path of the URL, without the slashes around it, is
the number of a database; an empty path means the first one.  The user and the password are decoded,
and have to come out as text.

The query of the URL is left out.  A real client looks there for the parameter `protocol`, and is not
made if it names an unknown protocol; here every query will do.

A connection is refused before anything is sent if the address of the settings cannot be read, if
the client cannot be made, or if there is no time to connect.
-/

namespace Leasehold.Redis

/-- A client, ready to connect. -/
structure Client where
  /-- The number of the database. -/
  database : Int := 0
  /-- The user, if one is named. -/
  user? : Option String := none
  /-- The password, if there is one. -/
  password? : Option String := none
deriving DecidableEq, Repr

/-- Why no client is made from a URL. -/
inductive ClientError where
  /-- The text is no URL. -/
  | badUrl
  /-- The path is no number. -/
  | badDatabase
  /-- The user is no text. -/
  | badUser
  /-- The password is no text. -/
  | badPassword
deriving DecidableEq, Repr

/-- The text of a client error. -/
def ClientError.message : ClientError → String
  | .badUrl => "Redis URL did not parse - InvalidClientConfig"
  | .badDatabase => "Invalid database number - InvalidClientConfig"
  | .badUser => "Username is not valid UTF-8 string - InvalidClientConfig"
  | .badPassword => "Password is not valid UTF-8 string - InvalidClientConfig"

/-! ## Whole numbers -/

/-- A natural number in decimal digits. -/
def natural? (cs : List Char) : Option Nat := if cs = [] then none else Numeral.value? 10 cs

/-- A number of 64 bits with a sign or without. -/
def wholeNumber? (cs : List Char) : Option Int :=
  match cs with
  | '-' :: ds => ((natural? ds).filter (· ≤ Nat.pow 2 63)).map fun n => -(n : Int)
  | '+' :: ds => ((natural? ds).filter (· < Nat.pow 2 63)).map Int.ofNat
  | ds => ((natural? ds).filter (· < Nat.pow 2 63)).map Int.ofNat

/-! ## Making a client -/

/-- A text without the slashes around it. -/
def trimSlashes (cs : List Char) : List Char :=
  ((cs.dropWhile (· == '/')).reverse.dropWhile (· == '/')).reverse

/-- The number of the database that a path names. -/
def databaseOf? (path : List Char) : Option Int :=
  match trimSlashes path with
  | [] => some 0
  | cs => wholeNumber? cs

/-- A decoded text; an empty one counts as none. -/
def decoded (e : ClientError) (cs : List Char) : Except ClientError (Option String) :=
  if cs = [] then .ok none
  else
    match Percent.decode? cs with
    | some s => .ok (some (String.ofList s))
    | none => .error e

/-- The client of a URL, whatever its query says. -/
def Client.ofUrl (url : Url) : Except ClientError Client :=
  match databaseOf? url.path.text with
  | none => .error .badDatabase
  | some database => do
      let user? ← decoded .badUser url.user
      let password? ← decoded .badPassword url.password
      .ok { database, user?, password? }

/-- The client of the text of a URL. -/
def Client.openText (text : List Char) : Except ClientError Client :=
  match Url.ofText? text with
  | none => .error .badUrl
  | some url => Client.ofUrl url

/-- The commands a client sends first: it says who it is and chooses the database. -/
def Client.greeting (c : Client) : List (List String) :=
  (match c.user?, c.password? with
    | none, some password => [["AUTH", password]]
    | some user, some password => [["AUTH", user, password]]
    | _, none => [])
  ++ if c.database = 0 then [] else [["SELECT", toString c.database]]

/-! ## Connecting -/

/-- The client of settings, or why no connection is tried. -/
def Settings.client (s : Settings) : Except StoreError Client :=
  match s.url? with
  | none => .error (.connection (Leasehold.Settings.Invalid.badAddress s).message)
  | some url =>
      match Client.openText url.text with
      | .error e => .error (.command e.message)
      | .ok c =>
          if s.connectTimeout.isZero then
            .error (.connection
              ("timed out after " ++ s.connectTimeout.brief ++ " connecting to " ++ s.addr))
          else .ok c

end Leasehold.Redis
