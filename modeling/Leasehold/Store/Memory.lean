import Leasehold.Store.Request
import Leasehold.Table
import Leasehold.Time.Instant

/-!
# A store in memory

Each key has an entry: a value and a deadline.  The entry is live up to the deadline, the deadline
included, and for ever if the deadline is beyond what a clock can read.

Entries that have expired stay in the table until somebody looks.  Every request first drops the
entry of its own key if it has expired, and counting the keys drops all such entries.  Only the time
to live is read without a change.
-/

namespace Leasehold

/-- The value of a key and the instant up to which it lives. -/
structure Entry where
  /-- The value. -/
  value : String
  /-- The last instant of the entry, if it has one. -/
  deadline? : Option Instant
deriving DecidableEq, Repr

/-- Whether an entry is live at an instant. -/
def Entry.liveAt (e : Entry) (now : Instant) : Bool :=
  match e.deadline? with
  | none => true
  | some t => decide (now ≤ t)

/-- The time an entry has left, if it is live.  An entry without a deadline has the longest time. -/
def Entry.ttl? (e : Entry) (now : Instant) : Option Duration :=
  match e.deadline? with
  | none => some .longest
  | some t => if now ≤ t then some (t.since now) else none

/-- A store in memory. -/
structure Memory where
  /-- The entries, live and expired. -/
  entries : Table Entry := ∅
deriving DecidableEq, Repr

namespace Memory

instance : Inhabited Memory := ⟨{}⟩

/-- Drops the entry of a key if it has expired. -/
def purge (m : Memory) (now : Instant) (k : String) : Memory :=
  match m.entries.find? k with
  | some e => if e.liveAt now then m else ⟨m.entries.erase k⟩
  | none => m

/-- Drops every entry that has expired. -/
def purgeAll (m : Memory) (now : Instant) : Memory := ⟨m.entries.filter (·.liveAt now)⟩

/-- The live value of a key. -/
def value? (m : Memory) (now : Instant) (k : String) : Option String :=
  ((m.purge now k).entries.find? k).map (·.value)

/-- The time a key has left. -/
def ttl? (m : Memory) (now : Instant) (k : String) : Option Duration :=
  (m.entries.find? k).bind (·.ttl? now)

/-- The number of live keys. -/
def size (m : Memory) (now : Instant) : Nat := (m.purgeAll now).entries.size

/-! ## Requests -/

/-- Writes a value unless the key has a live one. -/
def set (m : Memory) (now : Instant) (k v : String) (ttl : Duration) : Answer × Memory :=
  let m := m.purge now k
  if m.entries.contains k then (.occupied, m)
  else (.acquired, ⟨m.entries.insert k ⟨v, now.after? ttl⟩⟩)

/-- Reads the live value of a key. -/
def get (m : Memory) (now : Instant) (k : String) : Answer × Memory :=
  (.value (m.value? now k), m.purge now k)

/-- Removes a key. -/
def delete (m : Memory) (now : Instant) (k : String) : Answer × Memory :=
  (.done, ⟨(m.purge now k).entries.erase k⟩)

/-- Moves the deadline of a live key. -/
def refresh (m : Memory) (now : Instant) (k : String) (ttl : Duration) : Answer × Memory :=
  let m := m.purge now k
  match m.entries.find? k with
  | some e => (.done, ⟨m.entries.insert k { e with deadline? := now.after? ttl }⟩)
  | none => (.failed (.notFound k), m)

/-- Removes a key if it has the given live value. -/
def deleteIfEquals (m : Memory) (now : Instant) (k v : String) : Answer × Memory :=
  let m := m.purge now k
  match m.entries.find? k with
  | some e => if e.value = v then (.removed true, ⟨m.entries.erase k⟩) else (.removed false, m)
  | none => (.removed false, m)

/-- Serves a request. -/
def answer (m : Memory) (now : Instant) : Request → Answer × Memory
  | .set k v ttl => m.set now k v ttl
  | .get k => m.get now k
  | .delete k => m.delete now k
  | .refresh k ttl => m.refresh now k ttl
  | .deleteIfEquals k v => m.deleteIfEquals now k v

end Memory

end Leasehold
