import Leasehold.Store.Memory

/-!
# What a request does to an entry

A request reads and writes the entry of its own key alone, and it sees that
entry only while it is live.  So a request is described by what it makes of the
live entry of its key, `Request.serve`; the entries of all other keys stay as
they are (`find?_answer`).
-/

namespace Leasehold

/-! ## Live entries -/

theorem Entry.liveAt_iff {e : Entry} {now : Instant} :
    e.liveAt now = true ↔ ∀ t, e.deadline? = some t → now.nanos ≤ t.nanos := by
  unfold Entry.liveAt
  split
  next h => simp [h]
  next t h =>
    rw [decide_eq_true_iff, h]
    constructor
    · rintro hle _ ⟨⟩
      exact hle
    · intro hall
      exact hall t rfl

/-- What has expired stays so. -/
theorem filter_liveAt_later {now later : Instant} (h : now ≤ later) (e? : Option Entry) :
    (e?.filter (·.liveAt now)).filter (·.liveAt later) = e?.filter (·.liveAt later) := by
  rw [Option.filter_filter]
  congr 1
  funext e
  rw [Bool.eq_iff_iff, Bool.and_eq_true, and_iff_right_iff_imp, Entry.liveAt_iff, Entry.liveAt_iff]
  intro hlater t ht
  exact Nat.le_trans h (hlater t ht)

namespace Memory

/-- The entry of a key, if it is live. -/
def live? (m : Memory) (now : Instant) (k : String) : Option Entry :=
  (m.entries.find? k).filter (·.liveAt now)

theorem live?_eq_some {m : Memory} {now : Instant} {k : String} {e : Entry} :
    m.live? now k = some e ↔ m.entries.find? k = some e ∧ e.liveAt now = true := by
  simp [live?, Option.filter_eq_some_iff]

theorem find?_purge (m : Memory) (now : Instant) (k j : String) :
    (m.purge now k).entries.find? j = if j = k then m.live? now k else m.entries.find? j := by
  unfold purge live?
  split
  next e he =>
    split
    next hlive =>
      by_cases hj : j = k
      · simp [hj, he, hlive, Option.filter_some]
      · simp [hj]
    next hdead =>
      rw [Table.find?_erase]
      simp [he, hdead, Option.filter_some]
  next hnone =>
    by_cases hj : j = k
    · simp [hj, hnone]
    · simp [hj]

@[simp] theorem find?_purge_self (m : Memory) (now : Instant) (k : String) :
    (m.purge now k).entries.find? k = m.live? now k := by
  simp [find?_purge]

theorem find?_purgeAll (m : Memory) (now : Instant) (k : String) :
    (m.purgeAll now).entries.find? k = m.live? now k :=
  Table.find?_filter m.entries _ k

theorem value?_eq (m : Memory) (now : Instant) (k : String) :
    m.value? now k = (m.live? now k).map (·.value) := by
  simp [value?]

theorem ttl?_eq (m : Memory) (now : Instant) (k : String) :
    m.ttl? now k = (m.live? now k).map fun e => e.deadline?.elim .longest (·.since now) := by
  unfold ttl? live?
  cases m.entries.find? k with
  | none => rfl
  | some e =>
    cases hdeadline : e.deadline? with
    | none => simp [Entry.ttl?, Entry.liveAt, hdeadline, Option.filter_some]
    | some t =>
      by_cases h : now ≤ t <;>
        simp [Entry.ttl?, Entry.liveAt, hdeadline, Option.filter_some, h]

theorem live?_later (m : Memory) {now later : Instant} (h : now ≤ later) (k : String) :
    m.live? later k = (m.live? now k).filter (·.liveAt later) :=
  (filter_liveAt_later h _).symm

/-- Dropping entries that have expired changes no live entry. -/
theorem live?_purge (m : Memory) (now : Instant) (k j : String) :
    (m.purge now k).live? now j = m.live? now j := by
  have hkept : (m.live? now j).filter (·.liveAt now) = m.live? now j :=
    (m.live?_later (Nat.le_refl _) j).symm
  rw [live?, find?_purge]
  split
  next h => rw [← h, hkept]
  next => rfl

theorem live?_purgeAll (m : Memory) (now : Instant) (j : String) :
    (m.purgeAll now).live? now j = m.live? now j := by
  rw [live?, find?_purgeAll]
  exact (m.live?_later (Nat.le_refl _) j).symm

end Memory

/-! ## Requests -/

/-- The answer to a request, and what becomes of the entry of its key, when the
live entry of the key is given. -/
def Request.serve (now : Instant) (live? : Option Entry) : Request → Answer × Option Entry
  | .set _ v ttl =>
      match live? with
      | some e => (.occupied, some e)
      | none => (.acquired, some ⟨v, now.after? ttl⟩)
  | .get _ => (.value (live?.map (·.value)), live?)
  | .delete _ => (.done, none)
  | .refresh k ttl =>
      match live? with
      | some e => (.done, some { e with deadline? := now.after? ttl })
      | none => (.failed (.notFound k), none)
  | .deleteIfEquals _ v =>
      match live? with
      | some e => if e.value = v then (.removed true, none) else (.removed false, some e)
      | none => (.removed false, none)

namespace Memory

/-- A store answers a request by what it makes of the live entry of its key. -/
theorem answer_eq_serve (m : Memory) (now : Instant) (r : Request) :
    (m.answer now r).1 = (r.serve now (m.live? now r.key)).1 := by
  cases r with
  | set k v ttl =>
      cases h : m.live? now k <;>
        simp [answer, set, Table.contains, Request.serve, Request.key, h]
  | get k => simp [answer, get, value?_eq, Request.serve, Request.key]
  | delete k => rfl
  | refresh k ttl =>
      cases h : m.live? now k <;> simp [answer, refresh, Request.serve, Request.key, h]
  | deleteIfEquals k v =>
      cases h : m.live? now k with
      | none => simp [answer, deleteIfEquals, Request.serve, Request.key, h]
      | some e =>
          by_cases hv : e.value = v <;>
            simp [answer, deleteIfEquals, Request.serve, Request.key, h, hv]

/-- A request changes the entry of its own key, and no other one. -/
theorem find?_answer (m : Memory) (now : Instant) (r : Request) (j : String) :
    (m.answer now r).2.entries.find? j =
      if j = r.key then (r.serve now (m.live? now r.key)).2 else m.entries.find? j := by
  cases r with
  | set k v ttl =>
      cases h : m.live? now k with
      | some e =>
          by_cases hj : j = k <;>
            simp [answer, set, Table.contains, Request.serve, Request.key, h, hj, find?_purge]
      | none =>
          by_cases hj : j = k <;>
            simp [answer, set, Table.contains, Request.serve, Request.key, h, hj, find?_purge,
              Table.find?_insert]
  | get k => by_cases hj : j = k <;> simp [answer, get, Request.serve, Request.key, hj, find?_purge]
  | delete k =>
      by_cases hj : j = k <;>
        simp [answer, delete, Request.serve, Request.key, hj, find?_purge, Table.find?_erase]
  | refresh k ttl =>
      cases h : m.live? now k <;> by_cases hj : j = k <;>
        simp [answer, refresh, Request.serve, Request.key, h, hj, find?_purge, Table.find?_insert]
  | deleteIfEquals k v =>
      cases h : m.live? now k with
      | none =>
          by_cases hj : j = k <;>
            simp [answer, deleteIfEquals, Request.serve, Request.key, h, hj, find?_purge]
      | some e =>
          by_cases hv : e.value = v <;> by_cases hj : j = k <;>
            simp [answer, deleteIfEquals, Request.serve, Request.key, h, hv, hj, find?_purge,
              Table.find?_erase]

theorem live?_answer (m : Memory) (now : Instant) (r : Request) (j : String) :
    (m.answer now r).2.live? now j =
      if j = r.key then (r.serve now (m.live? now r.key)).2.filter (·.liveAt now)
      else m.live? now j := by
  rw [live?, find?_answer]
  split <;> rfl

end Memory

end Leasehold
