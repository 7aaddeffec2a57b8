import Leasehold.Proofs.Store.Entries
import Leasehold.Store.Memory
import Mathlib.Data.Finmap

/-!
# A store in memory and a map that drops nothing

A store in memory drops entries that have expired at odd times: the entry of one
key when a call is about that key, all of them when the keys are counted, none
when the time to live is read.  A `Ledger` drops none at all.  It says of each
entry whether it is present: up to its deadline, and for ever without one.

Two stores are in step, `Agree`, if they have the same live entries.  Every call
finds the same in both and keeps them in step, and so does time.  So a store
cannot be told from its ledger by any sequence of calls, whichever of them have
dropped entries (`findings_eq_ledger`).
-/

namespace Leasehold

/-! ## Calls -/

/-- A call on a store in memory: a request, or a look at the store. -/
inductive Inquiry where
  | request (r : Request)
  | value (k : String)
  | ttl (k : String)
  | size
  | isEmpty
deriving DecidableEq, Repr

/-- What a call finds. -/
inductive Finding where
  | answer (a : Answer)
  | value (v? : Option String)
  | ttl (d? : Option Duration)
  | size (n : Nat)
  | isEmpty (empty : Bool)
deriving DecidableEq, Repr

/-- What the calls of a sequence find, each made at its own reading of the clock. -/
def findings {σ : Type} (ask : σ → Instant → Inquiry → Finding × σ) :
    σ → List (Instant × Inquiry) → List Finding
  | _, [] => []
  | s, (now, q) :: calls => (ask s now q).1 :: findings ask (ask s now q).2 calls

/-- The clock does not go back between the calls of a sequence. -/
def Ordered (calls : List (Instant × Inquiry)) : Prop :=
  calls.Pairwise fun c c' => c.1 ≤ c'.1

instance (calls : List (Instant × Inquiry)) : Decidable (Ordered calls) :=
  inferInstanceAs (Decidable (calls.Pairwise fun c c' => c.1 ≤ c'.1))

namespace Memory

/-- Carries out a call.  Handles on one store share its entries, so it does not
matter through which of them the call is made. -/
def ask (m : Memory) (now : Instant) : Inquiry → Finding × Memory
  | .request r => (.answer (m.answer now r).1, (m.answer now r).2)
  | .value k => (.value (m.value? now k), m.purge now k)
  | .ttl k => (.ttl (m.ttl? now k), m)
  | .size => (.size (m.size now), m.purgeAll now)
  | .isEmpty => (.isEmpty (m.size now == 0), m.purgeAll now)

end Memory

/-! ## Ledgers -/

/-- The last entry of every key that was not removed. -/
structure Ledger where
  entries : Finmap fun _ : String => Entry := ∅

namespace Ledger

/-- The entry of a key, up to its deadline. -/
def present? (l : Ledger) (now : Instant) (k : String) : Option Entry :=
  (l.entries.lookup k).filter fun e => e.deadline?.all fun t => decide (now ≤ t)

/-- The keys that are present. -/
def presentKeys (l : Ledger) (now : Instant) : Finset String :=
  l.entries.keys.filter fun k => (l.present? now k).isSome

/-- The ledger with an entry. -/
def enter (l : Ledger) (k : String) (e : Entry) : Ledger := ⟨l.entries.insert k e⟩

/-- The ledger without an entry. -/
def strike (l : Ledger) (k : String) : Ledger := ⟨l.entries.erase k⟩

/-- Carries out a call.  Only a request that writes or removes an entry changes
the ledger. -/
def ask (l : Ledger) (now : Instant) : Inquiry → Finding × Ledger
  | .request (.set k v ttl) =>
      match l.present? now k with
      | some _ => (.answer .occupied, l)
      | none => (.answer .acquired, l.enter k ⟨v, now.after? ttl⟩)
  | .request (.get k) => (.answer (.value ((l.present? now k).map (·.value))), l)
  | .request (.delete k) => (.answer .done, l.strike k)
  | .request (.refresh k ttl) =>
      match l.present? now k with
      | some e => (.answer .done, l.enter k ⟨e.value, now.after? ttl⟩)
      | none => (.answer (.failed (.notFound k)), l)
  | .request (.deleteIfEquals k v) =>
      if (l.present? now k).map (·.value) = some v then (.answer (.removed true), l.strike k)
      else (.answer (.removed false), l)
  | .value k => (.value ((l.present? now k).map (·.value)), l)
  | .ttl k => (.ttl ((l.present? now k).map fun e => e.deadline?.elim .longest (·.since now)), l)
  | .size => (.size (l.presentKeys now).card, l)
  | .isEmpty => (.isEmpty (decide (l.presentKeys now = ∅)), l)

theorem present?_enter_self (l : Ledger) (now : Instant) (k : String) (e : Entry) :
    (l.enter k e).present? now k =
      (some e).filter fun e => e.deadline?.all fun t => decide (now ≤ t) := by
  rw [present?, enter, Finmap.lookup_insert]

theorem present?_enter_of_ne (l : Ledger) (now : Instant) {j k : String} (e : Entry)
    (h : j ≠ k) : (l.enter k e).present? now j = l.present? now j := by
  rw [present?, enter, Finmap.lookup_insert_of_ne _ h, present?]

theorem present?_strike (l : Ledger) (now : Instant) (j k : String) :
    (l.strike k).present? now j = if j = k then none else l.present? now j := by
  split
  next h =>
    subst h
    rw [present?, strike, Finmap.lookup_erase]
    rfl
  next h => rw [present?, strike, Finmap.lookup_erase_ne h, present?]

theorem mem_presentKeys {l : Ledger} {now : Instant} {k : String} :
    k ∈ l.presentKeys now ↔ (l.present? now k).isSome = true := by
  rw [presentKeys, Finset.mem_filter, Finmap.mem_keys, and_iff_right_iff_imp]
  intro h
  rw [← Finmap.lookup_isSome]
  revert h
  cases h : l.entries.lookup k <;> simp [present?, h]

end Ledger

/-! ## What is live later -/

theorem Entry.liveAt_eq_all (e : Entry) (now : Instant) :
    e.liveAt now = e.deadline?.all fun t => decide (now ≤ t) := by
  unfold Entry.liveAt
  cases e.deadline? <;> rfl

namespace Ledger

theorem present?_eq (l : Ledger) (now : Instant) (k : String) :
    l.present? now k = (l.entries.lookup k).filter (·.liveAt now) := by
  simp only [present?, Entry.liveAt_eq_all]

theorem present?_later (l : Ledger) {now later : Instant} (h : now ≤ later) (k : String) :
    l.present? later k = (l.present? now k).filter (·.liveAt later) := by
  rw [present?_eq, present?_eq, filter_liveAt_later h]

theorem filter_present? (l : Ledger) (now : Instant) (k : String) :
    (l.present? now k).filter (·.liveAt now) = l.present? now k :=
  (l.present?_later (Nat.le_refl _) k).symm

/-- A ledger answers a request by what it makes of the entry that is present. -/
theorem ask_request (l : Ledger) (now : Instant) (r : Request) :
    (l.ask now (.request r)).1 = .answer (r.serve now (l.present? now r.key)).1 := by
  cases r with
  | get k | delete k => rfl
  | set k v ttl | refresh k ttl =>
    cases h : l.present? now k <;> simp [ask, Request.serve, Request.key, h]
  | deleteIfEquals k v =>
    cases h : l.present? now k with
    | none => simp [ask, Request.serve, Request.key, h]
    | some e => by_cases hv : e.value = v <;> simp [ask, Request.serve, Request.key, h, hv]

/-- A request changes the entry of its own key, and no other one. -/
theorem present?_ask_request (l : Ledger) (now : Instant) (r : Request) (j : String) :
    (l.ask now (.request r)).2.present? now j =
      if j = r.key then (r.serve now (l.present? now r.key)).2.filter (·.liveAt now)
      else l.present? now j := by
  split
  next hj =>
    subst hj
    cases r with
    | get k => exact (l.filter_present? now k).symm
    | delete k => simp [ask, Request.serve, Request.key, present?_strike]
    | set k v ttl =>
      cases h : l.present? now k with
      | some e => simpa [ask, Request.serve, Request.key, h] using (l.filter_present? now k).symm
      | none =>
        simp [ask, Request.serve, Request.key, h, present?_enter_self, Entry.liveAt_eq_all]
    | refresh k ttl =>
      cases h : l.present? now k with
      | some e =>
        simp [ask, Request.serve, Request.key, h, present?_enter_self, Entry.liveAt_eq_all]
      | none => simp [ask, Request.serve, Request.key, h]
    | deleteIfEquals k v =>
      cases h : l.present? now k with
      | none => simp [ask, Request.serve, Request.key, h]
      | some e =>
        have hkept : (some e).filter (·.liveAt now) = some e := h ▸ l.filter_present? now k
        by_cases hv : e.value = v
        · simp [ask, Request.serve, Request.key, h, hv, present?_strike]
        · simp [ask, Request.serve, Request.key, h, hv, hkept]
  next hj =>
    cases r with
    | get k => rfl
    | delete k => exact (l.present?_strike now j k).trans (if_neg hj)
    | set k v ttl | refresh k ttl =>
      have hne : j ≠ k := hj
      cases h : l.present? now k <;> simp [ask, h, present?_enter_of_ne, hne]
    | deleteIfEquals k v =>
      simp only [ask]
      split
      · exact (l.present?_strike now j k).trans (if_neg hj)
      · rfl

end Ledger

/-! ## Stores in step -/

namespace Memory

/-- The ledger with the entries of a store, live and expired. -/
def ledger (m : Memory) : Ledger := ⟨(m.entries.rows.map fun r => ⟨r.1, r.2⟩).toFinmap⟩

/-- A store and a ledger have the same entries at a reading, those aside that
have expired. -/
def Agree (now : Instant) (m : Memory) (l : Ledger) : Prop :=
  ∀ k, m.live? now k = l.present? now k

theorem dlookup_rows (rows : List (String × Entry)) (k : String) :
    (rows.map fun r => (⟨r.1, r.2⟩ : Sigma fun _ : String => Entry)).dlookup k =
      rows.lookup k := by
  induction rows with
  | nil => rfl
  | cons r rows ih =>
    obtain ⟨j, e⟩ := r
    by_cases h : k = j
    · subst h
      simp
    · have hne : (k == j) = false := by simpa using h
      rw [List.map_cons, List.dlookup_cons_ne _ _ h, ih, List.lookup_cons, hne]

theorem agree_ledger (now : Instant) (m : Memory) : Agree now m m.ledger := by
  intro k
  have hlookup : m.ledger.entries.lookup k = m.entries.find? k := by
    rw [ledger, Finmap.dlookup_list_toFinmap, dlookup_rows, Table.find?]
  rw [live?, Ledger.present?_eq, hlookup]

theorem Agree.later {now later : Instant} {m : Memory} {l : Ledger} (hagree : Agree now m l)
    (h : now ≤ later) : Agree later m l := by
  intro k
  rw [m.live?_later h, l.present?_later h, hagree k]

/-- A store in step with a ledger has as many live keys as are present. -/
theorem Agree.size {now : Instant} {m : Memory} {l : Ledger} (h : Agree now m l) :
    m.size now = (l.presentKeys now).card := by
  have hkeys : l.presentKeys now = ((m.purgeAll now).entries.rows.map Prod.fst).toFinset := by
    ext k
    rw [Ledger.mem_presentKeys, ← h k, ← find?_purgeAll, Table.find?, List.lookup_isSome_iff,
      List.mem_toFinset, List.mem_map]
    simp only [beq_iff_eq, eq_comm (a := k)]
  rw [hkeys, List.toFinset_card_of_nodup (m.purgeAll now).entries.keys_nodup, List.length_map]
  rfl

/-- A call finds the same in a store and in a ledger, and keeps them in step. -/
theorem Agree.ask {now : Instant} {m : Memory} {l : Ledger} (h : Agree now m l) (q : Inquiry) :
    (m.ask now q).1 = (l.ask now q).1 ∧ Agree now (m.ask now q).2 (l.ask now q).2 := by
  cases q with
  | request r =>
    refine ⟨?_, fun j => ?_⟩
    · rw [l.ask_request, ← h r.key, ← answer_eq_serve]
      rfl
    · rw [l.present?_ask_request, ← h r.key, ← h j]
      exact m.live?_answer now r j
  | value k =>
    refine ⟨?_, fun j => (m.live?_purge now k j).trans (h j)⟩
    simp only [Memory.ask, Ledger.ask, value?_eq, h k]
  | ttl k =>
    refine ⟨?_, h⟩
    simp only [Memory.ask, Ledger.ask, ttl?_eq, h k]
  | size =>
    refine ⟨?_, fun j => (m.live?_purgeAll now j).trans (h j)⟩
    simp only [Memory.ask, Ledger.ask, h.size]
  | isEmpty =>
    refine ⟨?_, fun j => (m.live?_purgeAll now j).trans (h j)⟩
    have hzero : ((l.presentKeys now).card == 0) = decide (l.presentKeys now = ∅) := by
      rw [Bool.eq_iff_iff, beq_iff_eq, decide_eq_true_iff, Finset.card_eq_zero]
    rw [Memory.ask, Ledger.ask, h.size, hzero]

/-! ## Refreshes -/

/-- A refresh is carried out just if it finds a live entry. -/
theorem refresh_answer (m : Memory) (now : Instant) (k : String) (ttl : Duration) :
    (m.refresh now k ttl).1 =
      if (m.value? now k).isSome then .done else .failed (.notFound k) := by
  have hserve := m.answer_eq_serve now (.refresh k ttl)
  rw [value?_eq]
  cases h : m.live? now k <;> simpa [answer, Request.serve, Request.key, h] using hserve

/-- After a refresh a live key lives up to the new deadline, and for ever if there
is none, whatever the old one was.  A key that has expired is not revived. -/
theorem value?_refresh (m : Memory) {now later : Instant} (h : now ≤ later) (k : String)
    (ttl : Duration) :
    (m.refresh now k ttl).2.value? later k =
      if (now.after? ttl).all (fun t => decide (later ≤ t)) then m.value? now k else none := by
  have hlive := m.live?_answer now (.refresh k ttl) k
  rw [answer, Request.key, if_pos rfl] at hlive
  rw [value?_eq, value?_eq, live?_later _ h, hlive, filter_liveAt_later h]
  cases hfound : m.live? now k with
  | none => simp [Request.serve]
  | some e =>
    simp only [Request.serve, Option.filter_some, Entry.liveAt_eq_all, Option.map_some]
    split <;> rfl

/-! ## Sequences of calls -/

theorem Agree.findings {now : Instant} {m : Memory} {l : Ledger} {calls : List (Instant × Inquiry)}
    (h : Agree now m l) (hordered : Ordered calls) (hnow : ∀ c ∈ calls, now ≤ c.1) :
    findings Memory.ask m calls = findings Ledger.ask l calls := by
  induction calls generalizing now m l with
  | nil => rfl
  | cons c calls ih =>
    obtain ⟨t, q⟩ := c
    obtain ⟨hlater, hordered⟩ := List.pairwise_cons.mp hordered
    obtain ⟨hfinds, hagree⟩ := (h.later (hnow _ List.mem_cons_self)).ask q
    rw [Leasehold.findings, Leasehold.findings, hfinds, ih hagree hordered hlater]

/-- No sequence of calls tells a store in memory from its ledger, nor from any
store with the same live entries, so it does not show which expired entries were
dropped.  A refresh revives no key that has expired; of a live key it sets the
deadline, or takes it away. -/
theorem findings_eq_ledger {m : Memory} {calls : List (Instant × Inquiry)}
    (hordered : Ordered calls) :
    findings Memory.ask m calls = findings Ledger.ask m.ledger calls ∧
      ({} : Memory).ledger = {} ∧
      (∀ now m', (∀ k, Memory.live? m' now k = m.live? now k) → (∀ c ∈ calls, now ≤ c.1) →
        findings Memory.ask m' calls = findings Memory.ask m calls) ∧
      ∀ (now later : Instant) (k : String) (ttl : Duration), now ≤ later →
        (m.refresh now k ttl).1 =
            (if (m.value? now k).isSome then .done else .failed (.notFound k)) ∧
          (m.refresh now k ttl).2.value? later k =
            if (now.after? ttl).all (fun t => decide (later ≤ t)) then m.value? now k
            else none := by
  refine ⟨?_, rfl, fun now m' hsame hnow => ?_, fun now later k ttl hle => ?_⟩
  · exact (agree_ledger .epoch m).findings hordered fun c _ => Nat.zero_le c.1.nanos
  · have hagree : Agree now m' m.ledger := fun k => (hsame k).trans (agree_ledger now m k)
    rw [hagree.findings hordered hnow, (agree_ledger now m).findings hordered hnow]
  · exact ⟨m.refresh_answer now k ttl, m.value?_refresh hle k ttl⟩

/-- A key is live at its deadline and gone after it; another one outlives every
reading until a refresh gives it a deadline. -/
theorem findings_eq_ledger_at_deadlines :
    let second : Instant := { nanos := 1000000000 }
    let after : Instant := { nanos := 1000000001 }
    let calls : List (Instant × Inquiry) :=
      [(.epoch, .request (.set "a" "x" (.ofSeconds 1))), (.epoch, .request (.set "b" "y" .longest)),
        (second, .value "a"), (second, .ttl "b"), (after, .ttl "a"),
        (after, .request (.refresh "a" .longest)), (after, .size),
        (after, .request (.refresh "b" .zero)), (after, .request (.set "a" "z" .zero)),
        ({ nanos := 1000000002 }, .isEmpty)]
    Ordered calls ∧
      findings Memory.ask {} calls = findings Ledger.ask ({} : Memory).ledger calls ∧
      findings Memory.ask {} calls =
        [.answer .acquired, .answer .acquired, .value (some "x"), .ttl (some .longest), .ttl none,
          .answer (.failed (.notFound "a")), .size 1, .answer .done, .answer .acquired,
          .isEmpty true] :=
  ⟨by decide, (findings_eq_ledger (by decide)).1, by decide⟩

end Memory

end Leasehold
