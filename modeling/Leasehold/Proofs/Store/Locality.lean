import Leasehold.Proofs.Store.Likeness

/-!
# What belongs to one key

Two stores are alike at a key if they have the same live entry of that key, the same
switches and the same record of requests for it.  No call for that key can tell such
stores apart, nor can a change of the switches (`Service.AlikeAt.turn`,
`Service.AlikeAt.taskTurn`).  A call for any other key, and a look at all keys at once,
leaves a store alike at the key to what it was (`Errand.About.leaves`,
`StoreTask.Elsewhere.leaves`).
-/

namespace Leasehold

open Simulation

/-! ## The world that a turn leaves -/

section

variable {σ σ' π π' ρ ρ' : Type}

/-- What holds of the world that a turn leaves, if it is a step. -/
def Simulation.Turn.Leaves (P : σ → Prop) : Turn σ π ρ → Prop
  | .waits _ => True
  | .moves w _ _ => P w
  | .ends w _ _ _ => P w

/-- What holds of a process that goes on after a turn. -/
def Simulation.Turn.Next (P : π → Prop) : Turn σ π ρ → Prop
  | .waits _ => True
  | .moves _ p _ => P p
  | .ends .. => True

namespace Simulation.Turn

theorem Leaves.after {P : σ → Prop} {t : Turn σ π ρ} (h : t.Leaves P)
    (records : List Log.Record) : (t.after records).Leaves P := by
  cases t with
  | waits | moves | ends => exact h

theorem Leaves.within {P : σ → Prop} {P' : σ' → Prop} {t : Turn σ π ρ} (h : t.Leaves P)
    {f : σ → σ'} {next : π → π'} {done : σ' → ρ → Turn σ' π' ρ'}
    (hworld : ∀ {w}, P w → P' (f w)) (hdone : ∀ {w} a, P w → (done (f w) a).Leaves P') :
    (t.within f next done).Leaves P' := by
  cases t with
  | waits => trivial
  | moves w => exact hworld h
  | ends w a => exact (hdone a h).after _

theorem Next.after {P : π → Prop} {t : Turn σ π ρ} (h : t.Next P) (records : List Log.Record) :
    (t.after records).Next P := by
  cases t with
  | waits | moves | ends => exact h

theorem Next.within {P : π → Prop} {P' : π' → Prop} {t : Turn σ π ρ} (h : t.Next P)
    {f : σ → σ'} {next : π → π'} {done : σ' → ρ → Turn σ' π' ρ'}
    (hnext : ∀ {p}, P p → P' (next p)) (hdone : ∀ w a, (done (f w) a).Next P') :
    (t.within f next done).Next P' := by
  cases t with
  | waits => trivial
  | moves w p => exact hnext h
  | ends w a => exact (hdone w a).after _

end Simulation.Turn

end

/-! ## Stores -/

/-- A request changes no other key. -/
theorem Memory.live?_answer_of_ne {m : Memory} {now : Instant} {r : Request} {k : String}
    (h : r.key ≠ k) : (m.answer now r).2.live? now k = m.live? now k := by
  rw [live?_answer, if_neg h.symm]

/-- Two stores with the same live entry of a key, the same switches, and the same
record of requests for the key. -/
inductive Store.AlikeAt (k : String) (now : Instant) : Store → Store → Prop where
  | memory {m m' : Memory} :
      m.live? now k = m'.live? now k → AlikeAt k now (.memory m) (.memory m')
  | faulty {f : Faulty} {memory : Memory} {requests : List Request} :
      f.memory.live? now k = memory.live? now k →
      f.requests.filter (·.key = k) = requests.filter (·.key = k) →
      AlikeAt k now (.faulty f) (.faulty { f with memory, requests })

namespace Store.AlikeAt

variable {k : String} {now : Instant} {s s' s'' : Store}

theorem refl (k : String) (now : Instant) (s : Store) : s.AlikeAt k now s := by
  cases s with
  | memory m => exact .memory rfl
  | faulty f => exact .faulty (f := f) rfl rfl

theorem trans (h : s.AlikeAt k now s') (h' : s'.AlikeAt k now s'') : s.AlikeAt k now s'' := by
  cases h with
  | memory hm =>
    cases h' with
    | memory hm' => exact .memory (hm.trans hm')
  | faulty hm hr =>
    cases h' with
    | faulty hm' hr' => exact .faulty (hm.trans hm') (hr.trans hr')

theorem later {later : Instant} (h : s.AlikeAt k now s') (hle : now ≤ later) :
    s.AlikeAt k later s' := by
  have hlater : ∀ {m m' : Memory}, m.live? now k = m'.live? now k →
      m.live? later k = m'.live? later k := by
    intro m m' hm
    rw [m.live?_later hle, m'.live?_later hle, hm]
  cases h with
  | memory hm => exact .memory (hlater hm)
  | faulty hm hr => exact .faulty (hlater hm) hr

theorem live? (h : s.AlikeAt k now s') : s.contents.live? now k = s'.contents.live? now k := by
  cases h with
  | memory hm => exact hm
  | faulty hm => exact hm

theorem requests (h : s.AlikeAt k now s') :
    s.requests.filter (·.key = k) = s'.requests.filter (·.key = k) := by
  cases h with
  | memory => rfl
  | faulty _ hr => exact hr

theorem withContents (h : s.AlikeAt k now s') {m m' : Memory}
    (hm : m.live? now k = m'.live? now k) :
    (s.withContents m).AlikeAt k now (s'.withContents m') := by
  cases h with
  | memory => exact .memory hm
  | @faulty f _ _ _ hr => exact .faulty (f := { f with memory := m }) hm hr

/-- The same request is served in the same way. -/
theorem answer {m m' : Memory} (h : m.live? now k = m'.live? now k) {r : Request}
    (hr : r.key = k) :
    (m.answer now r).1 = (m'.answer now r).1 ∧
      (m.answer now r).2.live? now k = (m'.answer now r).2.live? now k := by
  subst hr
  rw [Memory.answer_eq_serve, Memory.answer_eq_serve, Memory.live?_answer, Memory.live?_answer, h]
  exact ⟨rfl, rfl⟩

theorem finishRefresh (h : s.AlikeAt k now s') (ttl : Duration) (fails : Bool) :
    (s.finishRefresh now k ttl fails).1 = (s'.finishRefresh now k ttl fails).1 ∧
      (s.finishRefresh now k ttl fails).2.AlikeAt k now (s'.finishRefresh now k ttl fails).2 := by
  cases h with
  | memory hm =>
    obtain ⟨ha, hm⟩ := answer hm (r := .refresh k ttl) rfl
    exact ⟨ha, .memory hm⟩
  | faulty hm hr =>
    simp only [Store.finishRefresh, Faulty.finishRefresh]
    split
    · exact ⟨rfl, .faulty hm hr⟩
    · obtain ⟨ha, hm⟩ := answer hm (r := .refresh k ttl) rfl
      exact ⟨ha, .faulty hm hr⟩

/-- A request for the key finds the same in both. -/
theorem receive (h : s.AlikeAt k now s') {r : Request} (hkey : r.key = k) :
    (s.receive now r).1 = (s'.receive now r).1 ∧
      (s.receive now r).2.AlikeAt k now (s'.receive now r).2 := by
  cases h with
  | memory hm =>
    obtain ⟨ha, hm⟩ := answer hm hkey
    exact ⟨congrArg Arrival.answered ha, .memory hm⟩
  | @faulty f memory requests hm hr =>
    have hr : (f.requests ++ [r]).filter (·.key = k) = (requests ++ [r]).filter (·.key = k) := by
      rw [List.filter_append, List.filter_append, hr]
    have hserved := answer hm hkey
    simp only [Store.receive, Faulty.receive]
    split
    · exact ⟨rfl, .faulty hm hr⟩
    cases r with
    | refresh key ttl =>
      simp only
      split
      · simp only [Faulty.finishRefresh]
        split
        · exact ⟨rfl, .faulty hm hr⟩
        · exact ⟨congrArg Arrival.answered hserved.1, .faulty hserved.2 hr⟩
      · exact ⟨rfl, .faulty hm hr⟩
    | set | get | delete | deleteIfEquals =>
      exact ⟨congrArg Arrival.answered hserved.1, .faulty hserved.2 hr⟩

end Store.AlikeAt

/-- A request for another key leaves the store alike what it was. -/
theorem Store.receive_alikeAt {k : String} {r : Request} (hkey : r.key ≠ k) (s : Store)
    (now : Instant) : (s.receive now r).2.AlikeAt k now s := by
  have hm : ∀ m : Memory, (m.answer now r).2.live? now k = m.live? now k := fun m =>
    Memory.live?_answer_of_ne hkey
  cases s with
  | memory m => exact .memory (hm m)
  | faulty f =>
    have hr : (f.requests ++ [r]).filter (·.key = k) = f.requests.filter (·.key = k) := by
      rw [List.filter_append, List.filter_cons_of_neg (by simpa using hkey), List.filter_nil,
        List.append_nil]
    simp only [receive, Faulty.receive]
    split
    · exact .faulty rfl hr
    cases r with
    | refresh key ttl =>
      simp only
      split
      · simp only [Faulty.finishRefresh]
        split
        · exact .faulty rfl hr
        · exact .faulty (hm f.memory) hr
      · exact .faulty rfl hr
    | set | get | delete | deleteIfEquals => exact .faulty (hm f.memory) hr

theorem Store.finishRefresh_alikeAt {k key : String} (hkey : key ≠ k) (s : Store) (now : Instant)
    (ttl : Duration) (fails : Bool) : (s.finishRefresh now key ttl fails).2.AlikeAt k now s := by
  have hm : ∀ m : Memory, (m.refresh now key ttl).2.live? now k = m.live? now k := fun m =>
    Memory.live?_answer_of_ne (r := .refresh key ttl) hkey
  cases s with
  | memory m => exact .memory (hm m)
  | faulty f =>
    simp only [finishRefresh, Faulty.finishRefresh]
    split
    · exact .refl k now _
    · exact .faulty (hm f.memory) rfl

/-! ## Calls -/

/-- Two services that differ in their stores, which are alike at a key, and in the
calls for other keys that were answered. -/
inductive Service.AlikeAt (k : String) (now : Instant) : Service → Service → Prop where
  | mk {s : Service} {store : Store} {journal : List Finished} :
      s.store.AlikeAt k (s.face.read now) store →
      s.journal.filter (·.request.key = k) = journal.filter (·.request.key = k) →
      AlikeAt k now s { s with store, journal }

/-- A call for a key of some kind. -/
structure Call.About (Q : String → Prop) (c : Call) : Prop where
  key : Q c.request.key
  sound : c.Sound

/-- An errand for a key of some kind. -/
def Errand.About (Q : String → Prop) : Errand → Prop
  | .single c => c.About Q
  | .comparing key _ c => Q key ∧ c.About Q
  | .deleting c => c.About Q

namespace Service

variable {Q : String → Prop} {k : String} {now : Instant} {s s' s'' : Service}

theorem call_about (s : Service) (now : Instant) {r : Request} (h : Q r.key) :
    (s.call now r).About Q :=
  ⟨h, s.call_sound now r⟩

theorem errand_about (s : Service) (now : Instant) {r : Request} (h : Q r.key) :
    (s.errand now r).About Q := by
  unfold errand
  split
  · exact ⟨h, s.call_about now h⟩
  · exact s.call_about now h

/-- A call goes on as a call for the same key. -/
theorem callTurn_next {c : Call} (h : c.About Q) : (callTurn now s c).Next (Call.About Q) := by
  cases hturn : callTurn now s c with
  | waits | ends => trivial
  | moves s' c' records =>
    obtain ⟨hsound, hrequest, -⟩ := callTurn_moves hturn
    exact ⟨hrequest ▸ h.key, hsound⟩

/-- An errand goes on as an errand for the same key. -/
theorem turn_next {e : Errand} (h : e.About Q) : (s.turn now e).Next (Errand.About Q) := by
  cases e with
  | single c =>
    simp only [turn]
    exact (callTurn_next h).within id fun _ _ => trivial
  | comparing key v c =>
    simp only [turn]
    refine (callTurn_next h.2).within (fun hc => ⟨h.1, hc⟩) fun s a => ?_
    simp only [compared]
    split
    · split
      · exact s.call_about now h.1
      · trivial
    · trivial
    · trivial
  | deleting c =>
    simp only [turn]
    exact (callTurn_next h).within id fun _ _ => trivial

namespace AlikeAt

theorem refl (k : String) (now : Instant) (s : Service) : s.AlikeAt k now s :=
  .mk (s := s) (.refl k _ s.store) rfl

theorem trans (h : s.AlikeAt k now s') (h' : s'.AlikeAt k now s'') : s.AlikeAt k now s'' := by
  cases h with
  | mk hstore hjournal =>
    cases h' with
    | mk hstore' hjournal' => exact .mk (hstore.trans hstore') (hjournal.trans hjournal')

theorem later {later : Instant} (h : s.AlikeAt k now s') (hle : now ≤ later) :
    s.AlikeAt k later s' := by
  cases h with
  | mk hstore hjournal => exact .mk (hstore.later (s.face.read_mono hle)) hjournal

theorem live? (h : s.AlikeAt k now s') : s.live? now k = s'.live? now k := by
  cases h with
  | mk hstore => exact hstore.live?

theorem value? (h : s.AlikeAt k now s') : s.value? now k = s'.value? now k := by
  rw [value?_eq, value?_eq, h.live?]

theorem ttl? (h : s.AlikeAt k now s') : s.ttl? now k = s'.ttl? now k := by
  cases h with
  | mk hstore =>
    simp only [Service.ttl?]
    rw [Memory.ttl?_eq, Memory.ttl?_eq, hstore.live?]

theorem requests (h : s.AlikeAt k now s') :
    s.store.requests.filter (·.key = k) = s'.store.requests.filter (·.key = k) := by
  cases h with
  | mk hstore => exact hstore.requests

theorem answered (h : s.AlikeAt k now s') :
    s.journal.filter (·.request.key = k) = s'.journal.filter (·.request.key = k) := by
  cases h with
  | mk _ hjournal => exact hjournal

theorem finish {a : Answer} (h : s.AlikeAt k now s') (c : Call) :
    (s.finish now c a).AlikeAt k now (s'.finish now c a) := by
  cases h with
  | mk hstore hjournal =>
    refine .mk (s := s.finish now c a) hstore ?_
    rw [Service.finish, List.filter_append, List.filter_append, hjournal]

/-- A call for another key that ends leaves the service alike what it was. -/
theorem finish_of_ne {a : Answer} {c : Call} {store : Store} (hc : c.request.key ≠ k)
    (h : store.AlikeAt k (s.face.read now) s.store) :
    (({ s with store } : Service).finish now c a).AlikeAt k now s := by
  refine .mk (s := ({ s with store } : Service).finish now c a) h ?_
  simp [Service.finish, hc]

theorem callTurn (h : s.AlikeAt k now s') {c : Call} (hc : c.About (· = k)) :
    Turn.Alike (AlikeAt k now) id (Service.callTurn now s c) (Service.callTurn now s' c) := by
  cases h with
  | @mk store journal hstore hjournal =>
    have hnext : ∀ {store₁ store₂ : Store}, store₁.AlikeAt k (s.face.read now) store₂ →
        ({ s with store := store₁ } : Service).AlikeAt k now
          { s with store := store₂, journal := journal } :=
      fun h => .mk (s := { s with store := _ }) h hjournal
    simp only [Service.callTurn]
    split
    next due? _ =>
      split
      next =>
        obtain ⟨harrival, hstore⟩ := hstore.receive hc.key
        generalize s.store.receive (s.face.read now) c.request = a at harrival hstore
        generalize store.receive (s.face.read now) c.request = b at harrival hstore
        obtain ⟨arrival, store₁⟩ := a
        obtain ⟨_, store₂⟩ := b
        cases harrival
        cases arrival with
        | answered a => exact .ends ((hnext hstore).finish c) rfl
        | delayed key ttl latency fails => exact .moves (hnext hstore)
      next => exact .waits
    next key ttl due? fails hstage =>
      obtain rfl : key = k := by rw [← hc.key, hc.sound key ttl due? fails hstage, Request.key]
      split
      next =>
        obtain ⟨hanswer, hstore⟩ := hstore.finishRefresh ttl fails
        rw [← hanswer]
        exact .ends ((hnext hstore).finish c) rfl
      next => exact .waits

end AlikeAt

/-- A call for another key leaves the service alike what it was. -/
theorem callTurn_leaves {c : Call} (hc : c.About (· ≠ k)) :
    (callTurn now s c).Leaves (·.AlikeAt k now s) := by
  simp only [callTurn]
  split
  next due? _ =>
    split
    next =>
      have hstore := Store.receive_alikeAt hc.key s.store (s.face.read now)
      split
      next a store hreceive =>
        rw [hreceive] at hstore
        exact .finish_of_ne hc.key hstore
      next store hreceive =>
        rw [hreceive] at hstore
        exact .mk (s := { s with store := _ }) hstore rfl
    next => trivial
  next key ttl due? fails hstage =>
    have hkey : key ≠ k := by
      have hkey := hc.key
      rwa [hc.sound key ttl due? fails hstage, Request.key] at hkey
    split
    next => exact .finish_of_ne hc.key (s.store.finishRefresh_alikeAt hkey _ ttl fails)
    next => trivial

/-! ## Errands -/

namespace AlikeAt

/-- An errand for the key does the same before both. -/
theorem turn (h : s.AlikeAt k now s') {e : Errand} (he : e.About (· = k)) :
    Turn.Alike (AlikeAt k now) id (s.turn now e) (s'.turn now e) := by
  have hcall : ∀ {t t' : Service}, t.AlikeAt k now t' → ∀ r, t'.call now r = t.call now r := by
    rintro t t' (⟨-, -⟩) r
    rfl
  have htrace : ∀ {t t' : Service}, t.AlikeAt k now t' →
      ∀ r a, t'.traceOf r a = t.traceOf r a := by
    rintro t t' (⟨-, -⟩) r a
    rfl
  cases e with
  | single c =>
    simp only [Service.turn]
    refine (h.callTurn he).within id fun hs ha => ?_
    cases ha
    simp only [id_eq, htrace hs]
    exact .ends hs rfl
  | comparing key v c =>
    simp only [Service.turn]
    refine (h.callTurn he.2).within id fun hs ha => ?_
    cases ha
    simp only [Service.compared]
    split
    · split
      · simp only [id_eq, hcall hs]
        exact .moves hs
      · exact .ends hs rfl
    · exact .ends hs rfl
    · exact .ends hs rfl
  | deleting c =>
    simp only [Service.turn]
    refine (h.callTurn he).within id fun hs ha => ?_
    cases ha
    exact .ends hs rfl

theorem errand (h : s.AlikeAt k now s') (r : Request) : s'.errand now r = s.errand now r := by
  cases h
  rfl

end AlikeAt

/-- An errand for another key leaves the service alike what it was. -/
theorem turn_leaves {e : Errand} (he : e.About (· ≠ k)) :
    (s.turn now e).Leaves (·.AlikeAt k now s) := by
  cases e with
  | single c =>
    simp only [turn]
    exact (callTurn_leaves he).within id fun _ hs => hs
  | comparing key v c =>
    simp only [turn]
    refine (callTurn_leaves he.2).within id fun a hs => ?_
    simp only [compared]
    split
    · split
      · exact hs
      · exact hs
    · exact hs
    · exact hs
  | deleting c =>
    simp only [turn]
    exact (callTurn_leaves he).within id fun _ hs => hs

end Service

/-! ## Actions -/

/-- Whether an action has to do with no other key. -/
def StoreAction.keepsTo (k : String) : StoreAction → Bool
  | .size | .requests => false
  | a => a.key?.all (· == k)

/-- A task that has to do with no other key. -/
def StoreTask.KeepsTo (k : String) : StoreTask → Prop
  | .action a => a.keepsTo k = true
  | .errand e => e.About (· = k)
  | .asleep _ => True

/-- A task that has to do with another key. -/
def StoreTask.Elsewhere (k : String) : StoreTask → Prop
  | .action a => a.keepsTo k = false
  | .errand e => e.About (· ≠ k)
  | .asleep _ => False

namespace Service

variable {k : String} {now : Instant} {s s' : Service}

namespace AlikeAt

theorem alterFaulty (h : s.AlikeAt k now s') {f : Faulty → Faulty}
    (hf : ∀ {y y' : Faulty}, (Store.faulty y).AlikeAt k (s.face.read now) (.faulty y') →
      (Store.faulty (f y)).AlikeAt k (s.face.read now) (.faulty (f y'))) :
    (s.alterFaulty f).AlikeAt k now (s'.alterFaulty f) := by
  obtain ⟨store, wrap, face, latency, journal⟩ := s
  cases h with
  | mk hstore hjournal =>
    cases hstore with
    | memory hm => exact .mk (s := ⟨.memory _, wrap, face, latency, journal⟩) (.memory hm) hjournal
    | faulty hm hr =>
      exact .mk (s := ⟨.faulty _, wrap, face, latency, journal⟩) (hf (.faulty hm hr)) hjournal

/-- Refreshes of the key are counted in the requests for it. -/
theorem refreshCount_eq {f f' : Faulty}
    (h : f.requests.filter (·.key = k) = f'.requests.filter (·.key = k)) :
    f.refreshCount k = f'.refreshCount k := by
  have hcount : ∀ f : Faulty, f.refreshCount k =
      (f.requests.filter (·.key = k)).countP (·.kind = .refresh) := by
    intro f
    rw [Faulty.refreshCount, List.countP_filter]
    refine List.countP_congr fun r _ => ?_
    rw [Bool.and_eq_true, decide_eq_true_iff, decide_eq_true_iff]
    cases r <;> simp [Request.key, Request.kind]
  rw [hcount, hcount, h]

/-- An action that has to do with no other key does the same on both. -/
theorem act (h : s.AlikeAt k now s') {a : StoreAction} (ha : a.keepsTo k = true) :
    (s.act now a).1.AlikeAt k now (s'.act now a).1 ∧ (s.act now a).2 = (s'.act now a).2 := by
  cases a with
  | clearRequests =>
    refine ⟨h.alterFaulty fun hstore => ?_, rfl⟩
    cases hstore with
    | faulty hm hr => exact .faulty hm rfl
  | unavailable | refreshFails | refreshLatency =>
    refine ⟨h.alterFaulty fun hstore => ?_, rfl⟩
    cases hstore with
    | faulty hm hr => exact .faulty hm hr
  | request | sleep => exact ⟨h, rfl⟩
  | value key =>
    obtain rfl : key = k := by simpa [StoreAction.keepsTo, StoreAction.key?] using ha
    refine ⟨?_, congrArg StoreResult.text h.value?⟩
    cases h with
    | mk hstore hjournal =>
      have hlive := hstore.live?
      refine .mk (s := { s with store := _ }) (hstore.withContents ?_) hjournal
      rw [Memory.live?_purge, Memory.live?_purge, hlive]
  | ttl key =>
    obtain rfl : key = k := by simpa [StoreAction.keepsTo, StoreAction.key?] using ha
    exact ⟨h, congrArg StoreResult.time h.ttl?⟩
  | latency kind d =>
    cases h with
    | mk hstore hjournal => exact ⟨.mk (s := { s with latency := _ }) hstore hjournal, rfl⟩
  | refreshCount key =>
    obtain rfl : key = k := by simpa [StoreAction.keepsTo, StoreAction.key?] using ha
    refine ⟨h, congrArg StoreResult.count ?_⟩
    obtain ⟨store, wrap, face, latency, journal⟩ := s
    cases h with
    | mk hstore =>
      cases hstore with
      | memory => rfl
      | faulty hm hr => exact congrArg some (refreshCount_eq hr)
  | size | requests => cases ha

/-- A task that has to do with no other key does the same on both. -/
theorem taskTurn (h : s.AlikeAt k now s') {t : StoreTask} (ht : t.KeepsTo k) :
    Turn.Alike (AlikeAt k now) id (s.taskTurn now t) (s'.taskTurn now t) := by
  cases t with
  | action a =>
    have hact := h.act ht
    cases a with
    | request r =>
      simp only [Service.taskTurn, h.errand]
      exact .moves h
    | sleep d => exact .moves h
    | value | ttl | size | requests | refreshCount | clearRequests | unavailable | refreshFails
    | refreshLatency | latency => exact .ends hact.1 hact.2
  | errand e =>
    simp only [Service.taskTurn]
    refine (h.turn ht).within id fun hs ha => ?_
    cases ha
    exact .ends hs rfl
  | asleep due? =>
    simp only [Service.taskTurn]
    split
    · exact .ends h rfl
    · exact .waits

end AlikeAt

/-- A task that has to do with no other key goes on so. -/
theorem taskTurn_next {t : StoreTask} (ht : t.KeepsTo k) :
    (s.taskTurn now t).Next (StoreTask.KeepsTo k) := by
  cases t with
  | action a =>
    cases a with
    | request r =>
      have hkey : r.key = k := by
        simpa [StoreTask.KeepsTo, StoreAction.keepsTo, StoreAction.key?] using ht
      exact s.errand_about now hkey
    | sleep | value | ttl | size | requests | refreshCount | clearRequests | unavailable
    | refreshFails | refreshLatency | latency => trivial
  | errand e =>
    simp only [taskTurn]
    exact (turn_next ht).within id fun _ _ => trivial
  | asleep due? =>
    simp only [taskTurn]
    split <;> trivial

/-- An action that has to do with another key leaves the service alike what it was. -/
theorem act_alikeAt {a : StoreAction} (ha : a.keepsTo k = false) (s : Service) (now : Instant) :
    (s.act now a).1.AlikeAt k now s := by
  cases a with
  | value key =>
    refine .mk (s := { s with store := _ }) ?_ rfl
    have hpurge := Memory.live?_purge s.store.contents (s.face.read now) key k
    obtain ⟨store, wrap, face, latency, journal⟩ := s
    cases store with
    | memory m => exact .memory hpurge
    | faulty f => exact .faulty (f := { f with memory := _ }) hpurge rfl
  | size =>
    obtain ⟨store, wrap, face, latency, journal⟩ := s
    cases store with
    | memory m =>
      exact .mk (s := ⟨.memory _, wrap, face, latency, journal⟩)
        (.memory (Memory.live?_purgeAll m _ k)) rfl
    | faulty f => exact .refl k now _
  | request | ttl | requests | refreshCount => exact .refl k now s
  | clearRequests | unavailable | refreshFails | refreshLatency | latency | sleep => cases ha

/-- A task that has to do with another key leaves the service alike what it was. -/
theorem taskTurn_leaves {t : StoreTask} (ht : t.Elsewhere k) :
    (s.taskTurn now t).Leaves (·.AlikeAt k now s) := by
  cases t with
  | action a =>
    have hact := act_alikeAt ht s now
    cases a with
    | request | value | ttl | size | requests | refreshCount | clearRequests | unavailable
    | refreshFails | refreshLatency | latency => exact hact
    | sleep => cases ht
  | errand e =>
    simp only [taskTurn]
    exact (turn_leaves ht).within id fun _ hs => hs
  | asleep => cases ht

theorem taskTurn_next_elsewhere {t : StoreTask} (ht : t.Elsewhere k) :
    (s.taskTurn now t).Next (StoreTask.Elsewhere k) := by
  cases t with
  | action a =>
    cases a with
    | request r =>
      have hkey : r.key ≠ k := by
        simpa [StoreTask.Elsewhere, StoreAction.keepsTo, StoreAction.key?] using ht
      exact s.errand_about now hkey
    | sleep => cases ht
    | value | ttl | size | requests | refreshCount | clearRequests | unavailable | refreshFails
    | refreshLatency | latency => trivial
  | errand e =>
    simp only [taskTurn]
    exact (turn_next ht).within id fun _ _ => trivial
  | asleep => cases ht

end Service

end Leasehold
