import Leasehold.Log
import Leasehold.Store.Request

/-!
# Tracing requests to a store

A traced store writes one record for each request, when it is answered.  The record stands in a span
that names the request.  A refresh of a key that is gone is expected once a lease has run out, so it
is no warning.
-/

namespace Leasehold.Request

open Log

/-- The time to live of a request as a trace shows it: milliseconds, in 64 bits. -/
def ttlField (ttl : Duration) : String × Value := ("ttl_ms", .number (ttl.millis % Nat.pow 2 64))

/-- The span around a request. -/
def span : Request → Span
  | .set k _ ttl => ⟨.debug, "store.set_if_absent", [("key", .text k), ttlField ttl]⟩
  | .get k => ⟨.debug, "store.get", [("key", .text k)]⟩
  | .delete k => ⟨.debug, "store.delete", [("key", .text k)]⟩
  | .refresh k ttl => ⟨.debug, "store.refresh_expiry", [("key", .text k), ttlField ttl]⟩
  | .deleteIfEquals k _ => ⟨.debug, "store.delete_if_equals", [("key", .text k)]⟩

/-- What a trace calls the failure of a request. -/
def failureMessage : Request → String
  | .set .. => "set failed"
  | .get _ => "get failed"
  | .delete _ => "delete failed"
  | .refresh .. => "refresh failed"
  | .deleteIfEquals .. => "compare-and-delete failed"

/-- The level, the message and the fields of the record about an answer. -/
def outcome (r : Request) : Answer → Level × String × List (String × Value)
  | .acquired => (.debug, "set", [("outcome", .text "Acquired")])
  | .occupied => (.debug, "set", [("outcome", .text "Exists")])
  | .value found? => (.trace, "get", [("found", .flag found?.isSome)])
  | .done =>
      match r with
      | .refresh .. => (.debug, "refreshed", [])
      | _ => (.debug, "deleted", [])
  | .removed gone => (.debug, "compare-and-delete", [("removed", .flag gone)])
  | .failed e =>
      match r, e with
      | .refresh .., .notFound _ => (.debug, "key gone", [])
      | _, _ => (.warn, r.failureMessage, [("error", .text e.message)])

/-- The record of an answered request. -/
def trace (r : Request) (a : Answer) : Record :=
  let (level, message, fields) := r.outcome a
  { level, message, fields, span? := some r.span }

end Leasehold.Request
