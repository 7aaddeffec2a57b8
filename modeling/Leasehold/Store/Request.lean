import Leasehold.Time.Decimal

/-!
# Requests to a store

A coordination store keeps texts under keys, each for a time.  It takes five requests.  Every
request has one answer, which may be a failure.

A store that takes only the first four requests can still serve the fifth: it compares by reading
the key and deletes in a second request.
-/

namespace Leasehold

/-- What a store can be asked. -/
inductive Request where
  /-- Write a value for a time, unless the key has one. -/
  | set (key value : String) (ttl : Duration)
  /-- Read the value of a key. -/
  | get (key : String)
  /-- Remove a key. -/
  | delete (key : String)
  /-- Let the value of a key live for another time, counted from now. -/
  | refresh (key : String) (ttl : Duration)
  /-- Remove a key if it has the given value. -/
  | deleteIfEquals (key value : String)
deriving DecidableEq, Repr

namespace Request

/-- The kinds of request. -/
inductive Kind where
  | set
  | get
  | delete
  | refresh
  | deleteIfEquals
deriving DecidableEq, Repr

/-- The kind of a request. -/
def kind : Request → Kind
  | set .. => .set
  | get _ => .get
  | delete _ => .delete
  | refresh .. => .refresh
  | deleteIfEquals .. => .deleteIfEquals

/-- The name of a kind. -/
def Kind.name : Kind → String
  | .set => "set"
  | .get => "get"
  | .delete => "delete"
  | .refresh => "refresh"
  | .deleteIfEquals => "delete_if_equals"

/-- The key a request is about. -/
def key : Request → String
  | set k .. => k
  | get k => k
  | delete k => k
  | refresh k _ => k
  | deleteIfEquals k _ => k

/-- A request as a list of words: its kind and its arguments. -/
def words : Request → List String
  | set k v ttl => [Kind.set.name, k, v, ttl.decimal]
  | get k => [Kind.get.name, k]
  | delete k => [Kind.delete.name, k]
  | refresh k ttl => [Kind.refresh.name, k, ttl.decimal]
  | deleteIfEquals k v => [Kind.deleteIfEquals.name, k, v]

end Request

/-- Why a store could not serve a request. -/
inductive StoreError where
  /-- The key has no value. -/
  | notFound (key : String)
  /-- The store cannot be reached. -/
  | connection (cause : String)
  /-- The store refused the request. -/
  | command (cause : String)
deriving DecidableEq, Repr

/-- The text of a store error. -/
def StoreError.message : StoreError → String
  | .notFound key => "key not found: " ++ key
  | .connection cause => "store unavailable: " ++ cause
  | .command cause => "store command failed: " ++ cause

/-- What a store answers. -/
inductive Answer where
  /-- The value was written. -/
  | acquired
  /-- The key has a value already. -/
  | occupied
  /-- The value of the key, if it has one. -/
  | value (found? : Option String)
  /-- The request was carried out. -/
  | done
  /-- Whether the key was removed. -/
  | removed (gone : Bool)
  /-- The request failed. -/
  | failed (e : StoreError)
deriving DecidableEq, Repr

end Leasehold
