import Leasehold.Proofs.Simulation.Omission
import Leasehold.Proofs.Store.Calls
import Leasehold.Proofs.Store.Ledger

/-!
# Stores that look alike

Two stores are alike if they have the same live entries, the same switches and the
same record of requests, except for one request `x`, which either may have taken
any number of times.  No call can tell such stores apart, and none makes them differ
(`Service.Alike.turn`, `Service.Alike.taskTurn`); only a look at the record shows `x`.
A call for `x` itself that sets no key leaves a store alike what it was
(`Service.alike_of_attempt`).
-/

namespace Leasehold

open Simulation

/-! ## Stores in memory -/

/-- Two stores with the same live entries. -/
def Memory.Alike (now : Instant) (m m' : Memory) : Prop := ∀ k, m.live? now k = m'.live? now k

namespace Memory.Alike

variable {now : Instant} {m m' m'' : Memory}

theorem refl (now : Instant) (m : Memory) : m.Alike now m := fun _ => rfl

theorem trans (h : m.Alike now m') (h' : m'.Alike now m'') : m.Alike now m'' := by
  intro k
  rw [h k, h' k]

theorem later {later : Instant} (h : m.Alike now m') (hle : now ≤ later) :
    m.Alike later m' := by
  intro k
  rw [m.live?_later hle, m'.live?_later hle, h k]

theorem value? (h : m.Alike now m') (k : String) : m.value? now k = m'.value? now k := by
  rw [value?_eq, value?_eq, h k]

theorem ttl? (h : m.Alike now m') (k : String) : m.ttl? now k = m'.ttl? now k := by
  rw [ttl?_eq, ttl?_eq, h k]

theorem size (h : m.Alike now m') : m.size now = m'.size now := by
  have hledger : m'.Agree now m.ledger := by
    intro k
    rw [← h k, m.agree_ledger now k]
  rw [(m.agree_ledger now).size, hledger.size]

theorem answer (h : m.Alike now m') (r : Request) :
    (m.answer now r).1 = (m'.answer now r).1 ∧
      (m.answer now r).2.Alike now (m'.answer now r).2 := by
  refine ⟨by rw [answer_eq_serve, answer_eq_serve, h r.key], fun k => ?_⟩
  rw [live?_answer, live?_answer, h r.key, h k]

theorem purge (h : m.Alike now m') (k : String) : (m.purge now k).Alike now (m'.purge now k) := by
  intro j
  rw [live?_purge, live?_purge, h j]

theorem purgeAll (h : m.Alike now m') : (m.purgeAll now).Alike now (m'.purgeAll now) := by
  intro j
  rw [live?_purgeAll, live?_purgeAll, h j]

end Memory.Alike

/-- A key that has a value is not set. -/
theorem Memory.alike_of_occupied {now : Instant} {m : Memory} {k v : String} {ttl : Duration}
    (h : (m.answer now (.set k v ttl)).1 ≠ .acquired) :
    (m.answer now (.set k v ttl)).2.Alike now m := by
  intro j
  rw [answer_eq_serve, Request.key] at h
  rw [live?_answer, Request.key]
  cases hlive : m.live? now k with
  | none => simp [Request.serve, hlive] at h
  | some e =>
    split
    next hj =>
      rw [hj, hlive]
      exact Option.filter_eq_some_iff.mpr ⟨rfl, (live?_eq_some.mp hlive).2⟩
    next => rfl

/-! ## Stores of both kinds -/

/-- The requests on record, in a store that keeps one. -/
def Store.requests : Store → List Request
  | .memory _ => []
  | .faulty f => f.requests

/-- Two stores with the same live entries, the same switches, and the same record of
requests other than `x`. -/
inductive Store.Alike (x : Request) (now : Instant) : Store → Store → Prop where
  | memory {m m' : Memory} : m.Alike now m' → Alike x now (.memory m) (.memory m')
  | faulty {f : Faulty} {memory : Memory} {requests : List Request} :
      f.memory.Alike now memory → f.requests.filter (· ≠ x) = requests.filter (· ≠ x) →
      Alike x now (.faulty f) (.faulty { f with memory, requests })

namespace Store.Alike

variable {x : Request} {now : Instant} {s s' s'' : Store}

theorem refl (x : Request) (now : Instant) (s : Store) : s.Alike x now s := by
  cases s with
  | memory m => exact .memory (.refl now m)
  | faulty f => exact .faulty (f := f) (.refl now f.memory) rfl

theorem trans (h : s.Alike x now s') (h' : s'.Alike x now s'') : s.Alike x now s'' := by
  cases h with
  | memory hm =>
    cases h' with
    | memory hm' => exact .memory (hm.trans hm')
  | faulty hm hr =>
    cases h' with
    | faulty hm' hr' => exact .faulty (hm.trans hm') (hr.trans hr')

theorem later {later : Instant} (h : s.Alike x now s') (hle : now ≤ later) :
    s.Alike x later s' := by
  cases h with
  | memory hm => exact .memory (hm.later hle)
  | faulty hm hr => exact .faulty (hm.later hle) hr

theorem contents (h : s.Alike x now s') : s.contents.Alike now s'.contents := by
  cases h with
  | memory hm => exact hm
  | faulty hm => exact hm

theorem requests (h : s.Alike x now s') :
    s.requests.filter (· ≠ x) = s'.requests.filter (· ≠ x) := by
  cases h with
  | memory => rfl
  | faulty _ hr => exact hr

theorem withContents (h : s.Alike x now s') {m m' : Memory} (hm : m.Alike now m') :
    (s.withContents m).Alike x now (s'.withContents m') := by
  cases h with
  | memory => exact .memory hm
  | @faulty f _ _ _ hr => exact .faulty (f := { f with memory := m }) hm hr

theorem finishRefresh (h : s.Alike x now s') (k : String) (ttl : Duration) (fails : Bool) :
    (s.finishRefresh now k ttl fails).1 = (s'.finishRefresh now k ttl fails).1 ∧
      (s.finishRefresh now k ttl fails).2.Alike x now (s'.finishRefresh now k ttl fails).2 := by
  cases h with
  | memory hm =>
    obtain ⟨ha, hm⟩ := hm.answer (.refresh k ttl)
    exact ⟨ha, .memory hm⟩
  | faulty hm hr =>
    simp only [Store.finishRefresh, Faulty.finishRefresh]
    split
    · exact ⟨rfl, .faulty hm hr⟩
    · obtain ⟨ha, hm⟩ := hm.answer (.refresh k ttl)
      exact ⟨ha, .faulty hm hr⟩

/-- A request finds the same in both. -/
theorem receive (h : s.Alike x now s') (r : Request) :
    (s.receive now r).1 = (s'.receive now r).1 ∧
      (s.receive now r).2.Alike x now (s'.receive now r).2 := by
  cases h with
  | memory hm =>
    obtain ⟨ha, hm⟩ := hm.answer r
    exact ⟨congrArg Arrival.answered ha, .memory hm⟩
  | @faulty f memory requests hm hr =>
    have hr : (f.requests ++ [r]).filter (· ≠ x) = (requests ++ [r]).filter (· ≠ x) := by
      rw [List.filter_append, List.filter_append, hr]
    have hserved := hm.answer r
    simp only [Store.receive, Faulty.receive]
    split
    · exact ⟨rfl, .faulty hm hr⟩
    cases r with
    | refresh k ttl =>
      simp only
      split
      · simp only [Faulty.finishRefresh]
        split
        · exact ⟨rfl, .faulty hm hr⟩
        · exact ⟨congrArg Arrival.answered hserved.1, .faulty hserved.2 hr⟩
      · exact ⟨rfl, .faulty hm hr⟩
    | set | get | delete | deleteIfEquals =>
      exact ⟨congrArg Arrival.answered hserved.1, .faulty hserved.2 hr⟩

end Store.Alike

/-- A request that sets no key leaves a store alike what it was. -/
theorem Store.alike_of_attempt {now : Instant} {s s' : Store} {k v : String} {ttl : Duration}
    {a : Answer} (h : s.receive now (.set k v ttl) = (.answered a, s')) (ha : a ≠ .acquired) :
    s'.Alike (.set k v ttl) now s := by
  cases s with
  | memory m =>
    simp only [receive, Prod.mk.injEq, Arrival.answered.injEq] at h
    obtain ⟨rfl, rfl⟩ := h
    exact .memory (Memory.alike_of_occupied ha)
  | faulty f =>
    have hr : (f.requests ++ [Request.set k v ttl]).filter (· ≠ Request.set k v ttl) =
        f.requests.filter (· ≠ Request.set k v ttl) := by
      simp
    simp only [receive, Faulty.receive] at h
    split at h
    · simp only [Prod.mk.injEq, Arrival.answered.injEq] at h
      obtain ⟨-, rfl⟩ := h
      exact .faulty (.refl now f.memory) hr
    · simp only [Faulty.answer, Prod.mk.injEq, Arrival.answered.injEq] at h
      obtain ⟨rfl, rfl⟩ := h
      exact .faulty (Memory.alike_of_occupied ha) hr

/-! ## Services -/

/-- Two services that differ in their stores, which are alike, and in the calls for
`x` that were answered. -/
inductive Service.Alike (x : Request) (now : Instant) : Service → Service → Prop where
  | mk {s : Service} {store : Store} {journal : List Finished} :
      s.store.Alike x (s.face.read now) store →
      s.journal.filter (·.request ≠ x) = journal.filter (·.request ≠ x) →
      Alike x now s { s with store, journal }

/-- How many keys are live. -/
def Service.size (s : Service) (now : Instant) : Nat := s.store.contents.size (s.face.read now)

/-- The result of an action when requests for `x` are not looked at. -/
def StoreResult.seen (x : Request) : StoreResult → StoreResult
  | .requests rs? => .requests (rs?.map (·.filter (· ≠ x)))
  | r => r

theorem Face.read_mono (face : Face) {now later : Instant} (h : now ≤ later) :
    face.read now ≤ face.read later := by
  cases face with
  | simulated => exact h
  | manual | stopped => exact Nat.le_refl _

namespace Service.Alike

variable {x : Request} {now : Instant} {s s' s'' : Service}

theorem refl (x : Request) (now : Instant) (s : Service) : s.Alike x now s :=
  .mk (s := s) (.refl x _ s.store) rfl

theorem trans (h : s.Alike x now s') (h' : s'.Alike x now s'') : s.Alike x now s'' := by
  cases h with
  | mk hstore hjournal =>
    cases h' with
    | mk hstore' hjournal' => exact .mk (hstore.trans hstore') (hjournal.trans hjournal')

theorem later {later : Instant} (h : s.Alike x now s') (hle : now ≤ later) :
    s.Alike x later s' := by
  cases h with
  | mk hstore hjournal => exact .mk (hstore.later (s.face.read_mono hle)) hjournal

theorem value? (h : s.Alike x now s') (k : String) : s.value? now k = s'.value? now k := by
  cases h with
  | mk hstore => exact hstore.contents.value? k

theorem ttl? (h : s.Alike x now s') (k : String) : s.ttl? now k = s'.ttl? now k := by
  cases h with
  | mk hstore => exact hstore.contents.ttl? k

theorem size (h : s.Alike x now s') : s.size now = s'.size now := by
  cases h with
  | mk hstore => exact hstore.contents.size

theorem requests (h : s.Alike x now s') :
    s.store.requests.filter (· ≠ x) = s'.store.requests.filter (· ≠ x) := by
  cases h with
  | mk hstore => exact hstore.requests

/-- Either both stores have switches, or none has. -/
theorem faulty?_cases (h : s.Alike x now s') :
    (s.faulty? = none ∧ s'.faulty? = none) ∨
      ∃ (f : Faulty) (memory : Memory) (requests : List Request), s.faulty? = some f ∧
        s'.faulty? = some { f with memory, requests } ∧
        f.requests.filter (· ≠ x) = requests.filter (· ≠ x) := by
  obtain ⟨store, wrap, face, latency, journal⟩ := s
  cases h with
  | mk hstore =>
    cases hstore with
    | memory => exact .inl ⟨rfl, rfl⟩
    | faulty _ hr => exact .inr ⟨_, _, _, rfl, rfl, hr⟩

theorem answered (h : s.Alike x now s') :
    s.journal.filter (·.request ≠ x) = s'.journal.filter (·.request ≠ x) := by
  cases h with
  | mk _ hjournal => exact hjournal

theorem finish {a : Answer} (h : s.Alike x now s') (c : Call) :
    (s.finish now c a).Alike x now (s'.finish now c a) := by
  cases h with
  | mk hstore hjournal =>
    refine .mk (s := s.finish now c a) hstore ?_
    rw [Service.finish, List.filter_append, List.filter_append, hjournal]

theorem callTurn (h : s.Alike x now s') (c : Call) :
    Turn.Alike (Alike x now) id (Service.callTurn now s c) (Service.callTurn now s' c) := by
  cases h with
  | @mk store journal hstore hjournal =>
    have hnext : ∀ {store₁ store₂ : Store}, store₁.Alike x (s.face.read now) store₂ →
        ({ s with store := store₁ } : Service).Alike x now
          { s with store := store₂, journal := journal } :=
      fun h => .mk (s := { s with store := _ }) h hjournal
    simp only [Service.callTurn]
    split
    next due? _ =>
      split
      next =>
        obtain ⟨harrival, hstore⟩ := hstore.receive c.request
        generalize s.store.receive (s.face.read now) c.request = a at harrival hstore
        generalize store.receive (s.face.read now) c.request = b at harrival hstore
        obtain ⟨arrival, store₁⟩ := a
        obtain ⟨_, store₂⟩ := b
        cases harrival
        cases arrival with
        | answered a => exact .ends ((hnext hstore).finish c) rfl
        | delayed k ttl latency fails => exact .moves (hnext hstore)
      next => exact .waits
    next k ttl due? fails _ =>
      split
      next =>
        obtain ⟨hanswer, hstore⟩ := hstore.finishRefresh k ttl fails
        rw [← hanswer]
        exact .ends ((hnext hstore).finish c) rfl
      next => exact .waits

/-- An errand does the same before both. -/
theorem turn (h : s.Alike x now s') (e : Errand) :
    Turn.Alike (Alike x now) id (s.turn now e) (s'.turn now e) := by
  have hcall : ∀ {t t' : Service}, t.Alike x now t' → ∀ r, t'.call now r = t.call now r := by
    rintro t t' (⟨-, -⟩) r
    rfl
  have htrace : ∀ {t t' : Service}, t.Alike x now t' → ∀ r a, t'.traceOf r a = t.traceOf r a := by
    rintro t t' (⟨-, -⟩) r a
    rfl
  cases e with
  | single c =>
    simp only [Service.turn]
    refine (h.callTurn c).within id fun hs ha => ?_
    cases ha
    simp only [id_eq, htrace hs]
    exact .ends hs rfl
  | comparing k v c =>
    simp only [Service.turn]
    refine (h.callTurn c).within id fun hs ha => ?_
    cases ha
    simp only [Service.compared]
    split
    · split
      · simp only [id_eq, hcall hs]
        exact .moves hs
      · exact .ends hs rfl
    · exact .ends hs rfl
    · exact .ends hs rfl
  | deleting c =>
    simp only [Service.turn]
    refine (h.callTurn c).within id fun hs ha => ?_
    cases ha
    exact .ends hs rfl

theorem errand (h : s.Alike x now s') (r : Request) : s'.errand now r = s.errand now r := by
  cases h
  rfl

/-- The record shows how often a key was to be refreshed, whatever `x` is. -/
theorem refreshCount_eq {f : Faulty} {memory : Memory} {requests : List Request}
    (hx : x.kind ≠ .refresh) (hr : f.requests.filter (· ≠ x) = requests.filter (· ≠ x))
    (k : String) : f.refreshCount k = ({ f with memory, requests } : Faulty).refreshCount k := by
  have hcount : ∀ (l : List Request) (p : Request → Bool), p x = false →
      l.countP p = (l.filter (· ≠ x)).countP p := by
    intro l p hp
    rw [List.countP_filter]
    refine List.countP_congr fun r _ => ?_
    by_cases hrx : r = x
    · simp [hrx, hp]
    · simp [hrx]
  have hmap : ∀ p : Request → Bool, p x = false → f.requests.countP p = requests.countP p := by
    intro p hp
    rw [hcount _ p hp, hr, ← hcount _ p hp]
  refine hmap _ ?_
  cases x with
  | refresh => exact absurd rfl hx
  | set | get | delete | deleteIfEquals => rfl

theorem alterFaulty (h : s.Alike x now s') {f : Faulty → Faulty}
    (hf : ∀ {y y' : Faulty}, (Store.faulty y).Alike x (s.face.read now) (.faulty y') →
      (Store.faulty (f y)).Alike x (s.face.read now) (.faulty (f y'))) :
    (s.alterFaulty f).Alike x now (s'.alterFaulty f) := by
  obtain ⟨store, wrap, face, latency, journal⟩ := s
  cases h with
  | mk hstore hjournal =>
    cases hstore with
    | memory hm => exact .mk (s := ⟨.memory _, wrap, face, latency, journal⟩) (.memory hm) hjournal
    | faulty hm hr =>
      exact .mk (s := ⟨.faulty _, wrap, face, latency, journal⟩) (hf (.faulty hm hr)) hjournal

theorem act (h : s.Alike x now s') (hx : x.kind ≠ .refresh) (a : StoreAction) :
    (s.act now a).1.Alike x now (s'.act now a).1 ∧
      (s.act now a).2.seen x = (s'.act now a).2.seen x := by
  cases a with
  | clearRequests =>
    refine ⟨h.alterFaulty fun hstore => ?_, rfl⟩
    cases hstore with
    | faulty hm hr => exact .faulty hm rfl
  | unavailable | refreshFails | refreshLatency =>
    refine ⟨h.alterFaulty fun hstore => ?_, rfl⟩
    cases hstore with
    | faulty hm hr => exact .faulty hm hr
  | request | sleep => exact ⟨h, rfl⟩
  | value k =>
    refine ⟨?_, congrArg StoreResult.text (h.value? k)⟩
    cases h with
    | mk hstore hjournal =>
      have hstore := hstore.withContents (hstore.contents.purge k)
      exact .mk (s := { s with store := _ }) hstore hjournal
  | ttl k => exact ⟨h, congrArg StoreResult.time (h.ttl? k)⟩
  | latency kind d =>
    cases h with
    | mk hstore hjournal => exact ⟨.mk (s := { s with latency := _ }) hstore hjournal, rfl⟩
  | size =>
    obtain ⟨store, wrap, face, latency, journal⟩ := s
    cases h with
    | mk hstore hjournal =>
      cases hstore with
      | memory hm =>
        have hsize := congrArg (StoreResult.size ∘ some) hm.size
        exact ⟨.mk (s := ⟨.memory _, wrap, face, latency, _⟩) (.memory hm.purgeAll) hjournal, hsize⟩
      | faulty hm hr =>
        exact ⟨.mk (s := ⟨.faulty _, wrap, face, latency, _⟩) (.faulty hm hr) hjournal, rfl⟩
  | requests =>
    refine ⟨h, ?_⟩
    rcases h.faulty?_cases with ⟨hs, hs'⟩ | ⟨f, memory, requests, hs, hs', hr⟩
    · simp only [Service.act, hs, hs']
    · simp only [Service.act, hs, hs', Option.map_some, StoreResult.seen, hr]
  | refreshCount k =>
    refine ⟨h, ?_⟩
    rcases h.faulty?_cases with ⟨hs, hs'⟩ | ⟨f, memory, requests, hs, hs', hr⟩
    · simp only [Service.act, hs, hs']
    · simp only [Service.act, hs, hs', Option.map_some]
      exact congrArg (StoreResult.count ∘ some) (refreshCount_eq hx hr k)

/-- An action does the same on both. -/
theorem taskTurn (h : s.Alike x now s') (hx : x.kind ≠ .refresh) (t : StoreTask) :
    Turn.Alike (Alike x now) (StoreResult.seen x) (s.taskTurn now t) (s'.taskTurn now t) := by
  cases t with
  | action a =>
    have hact := h.act hx a
    cases a with
    | request r =>
      simp only [Service.taskTurn, h.errand]
      exact .moves h
    | sleep d => exact .moves h
    | value | ttl | size | requests | refreshCount | clearRequests | unavailable | refreshFails
    | refreshLatency | latency => exact .ends hact.1 hact.2
  | errand e =>
    simp only [Service.taskTurn]
    refine (h.turn e).within id fun hs ha => ?_
    cases ha
    exact .ends hs rfl
  | asleep due? =>
    simp only [Service.taskTurn]
    split
    · exact .ends h rfl
    · exact .waits

end Service.Alike

/-- A call for `x` waits, or is answered, and then leaves the service alike what it
was unless it has set the key. -/
theorem Service.attempt_cases (s : Service) (now : Instant) {c : Call} {k v : String}
    {ttl : Duration} {due? : Option Instant} (hrequest : c.request = .set k v ttl)
    (hstage : c.stage = .approaching due?) :
    callTurn now s c = .waits due? ∨
      ∃ s' a, callTurn now s c = .ends s' a [] [] ∧
        (a ≠ .acquired → s'.Alike (.set k v ttl) now s) := by
  cases hturn : callTurn now s c with
  | waits due?' =>
    simp only [callTurn, hstage] at hturn
    split at hturn
    · split at hturn <;> cases hturn
    · cases hturn
      exact .inl rfl
  | moves =>
    simp only [callTurn, hstage] at hturn
    split at hturn
    · split at hturn
      · cases hturn
      next hreceive => cases (hrequest ▸ (Store.receive_delayed hreceive).1)
    · cases hturn
  | ends s' a started records =>
    simp only [callTurn, hstage] at hturn
    split at hturn
    · split at hturn
      next store hreceive =>
        cases hturn
        rw [hrequest] at hreceive
        refine .inr ⟨_, _, rfl, fun ha => ?_⟩
        have hanswered : (({ s with store } : Service).finish now c a).Alike (.set k v ttl) now
            { s with store } := by
          refine .mk (s := ({ s with store } : Service).finish now c a) (.refl _ _ store) ?_
          simp [finish, hrequest]
        exact hanswered.trans
          (.mk (s := { s with store }) (Store.alike_of_attempt hreceive ha) rfl)
      · cases hturn
    · cases hturn

end Leasehold
