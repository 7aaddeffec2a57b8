import Leasehold.Proofs.Store.Entries
import Leasehold.Store.Scenario

/-!
# What a call does to a service

A call that is under way leaves the entries of the store alone, and so does
everything that is done without a call, but for entries that have expired:
`Kept`.  When a call ends, it has failed and changed nothing, or the store in
memory has served it: `Served`.

A refresh is followed more closely.  The switches that it finds when it arrives
settle whether it fails and how long it takes (`callTurn_refresh_arrives`,
`callTurn_refresh_lands`).
-/

namespace Leasehold

open Simulation

/-! ## Stores -/

/-- Whether a store has switches. -/
def Store.isFaulty : Store → Bool
  | .memory _ => false
  | .faulty _ => true

/-- Whether a refresh that arrives at a store will fail. -/
def Store.failsRefresh : Store → Bool
  | .memory _ => false
  | .faulty f => f.unavailable || f.refreshFails

/-- How long a refresh that arrives at a store takes. -/
def Store.refreshDelay : Store → Duration
  | .memory _ => .zero
  | .faulty f => f.refreshLatency

/-- Whether a store takes requests. -/
def Store.isAvailable : Store → Bool
  | .memory _ => true
  | .faulty f => !f.unavailable

/-- A request has failed and changed nothing, or the store in memory has served
it. -/
inductive Answers (now : Instant) (m : Memory) (r : Request) : Answer → Memory → Prop where
  | fails (e : StoreError) : Answers now m r (.failed e) m
  | serves : Answers now m r (m.answer now r).1 (m.answer now r).2

theorem Store.receive_answered {s s' : Store} {now : Instant} {r : Request} {a : Answer}
    (h : s.receive now r = (.answered a, s')) :
    Answers now s.contents r a s'.contents ∧ s'.isFaulty = s.isFaulty := by
  cases s with
  | memory m =>
      simp only [receive, Prod.mk.injEq, Arrival.answered.injEq] at h
      obtain ⟨rfl, rfl⟩ := h
      exact ⟨.serves, rfl⟩
  | faulty f =>
      simp only [receive, Faulty.receive] at h
      split at h
      next =>
        simp only [Prod.mk.injEq, Arrival.answered.injEq] at h
        obtain ⟨rfl, rfl⟩ := h
        exact ⟨.fails _, rfl⟩
      next =>
        split at h
        next k ttl =>
          split at h
          next =>
            simp only [Faulty.finishRefresh] at h
            split at h
            · simp only [Prod.mk.injEq, Arrival.answered.injEq] at h
              obtain ⟨rfl, rfl⟩ := h
              exact ⟨.fails _, rfl⟩
            · simp only [Prod.mk.injEq, Arrival.answered.injEq] at h
              obtain ⟨rfl, rfl⟩ := h
              exact ⟨.serves, rfl⟩
          next => cases h
        next =>
          simp only [Prod.mk.injEq, Arrival.answered.injEq] at h
          obtain ⟨rfl, rfl⟩ := h
          exact ⟨.serves, rfl⟩

theorem Store.receive_delayed {s s' : Store} {now : Instant} {r : Request} {k : String}
    {ttl latency : Duration} {fails : Bool}
    (h : s.receive now r = (.delayed k ttl latency fails, s')) :
    r = .refresh k ttl ∧ s'.contents = s.contents ∧ s'.isFaulty = s.isFaulty := by
  cases s with
  | memory m => cases h
  | faulty f =>
      simp only [receive, Faulty.receive] at h
      split at h
      next => cases h
      next =>
        split at h
        next =>
          split at h
          next => cases h
          next =>
            simp only [Prod.mk.injEq, Arrival.delayed.injEq] at h
            obtain ⟨⟨rfl, rfl, rfl, rfl⟩, rfl⟩ := h
            exact ⟨rfl, rfl, rfl⟩
        next => cases h

theorem Store.finishRefresh_answers (s : Store) (now : Instant) (k : String) (ttl : Duration)
    (fails : Bool) :
    Answers now s.contents (.refresh k ttl) (s.finishRefresh now k ttl fails).1
        (s.finishRefresh now k ttl fails).2.contents ∧
      (s.finishRefresh now k ttl fails).2.isFaulty = s.isFaulty := by
  cases s with
  | memory m => exact ⟨.serves, rfl⟩
  | faulty f =>
      simp only [finishRefresh, Faulty.finishRefresh]
      split
      · exact ⟨.fails _, rfl⟩
      · exact ⟨.serves, rfl⟩

theorem Store.receive_set_free {s : Store} {now : Instant} {k : String} (v : String)
    (ttl : Duration) (havailable : s.isAvailable = true) (hfree : s.contents.live? now k = none) :
    ∃ s', s.receive now (.set k v ttl) = (.answered .acquired, s') := by
  have hanswer : (s.contents.answer now (.set k v ttl)).1 = .acquired := by
    rw [Memory.answer_eq_serve, Request.key, hfree]
    rfl
  cases s with
  | memory m =>
    have hm : (m.answer now (.set k v ttl)).1 = .acquired := hanswer
    refine ⟨.memory (m.answer now (.set k v ttl)).2, ?_⟩
    simp only [receive, hm]
  | faulty f =>
    have hm : (f.memory.answer now (.set k v ttl)).1 = .acquired := hanswer
    have hun : f.unavailable = false := by simpa [isAvailable] using havailable
    refine ⟨.faulty { f with
      memory := (f.memory.answer now (.set k v ttl)).2
      requests := f.requests ++ [.set k v ttl] }, ?_⟩
    simp [receive, Faulty.receive, hun, Faulty.answer, hm]

theorem Store.receive_unavailable {f : Faulty} {now : Instant} (h : f.unavailable = true)
    (r : Request) : (Store.faulty f).receive now r =
      (.answered (.failed (.connection "fake store unavailable")),
        .faulty { f with requests := f.requests ++ [r] }) := by
  simp only [receive, Faulty.receive, h, if_true]

/-- A store that takes requests serves each one that is not for a refresh. -/
theorem Store.receive_available {f : Faulty} {now : Instant} {r : Request}
    (havailable : f.unavailable = false) (hr : ∀ k ttl, r ≠ .refresh k ttl) :
    (Store.faulty f).receive now r = (.answered (f.memory.answer now r).1, .faulty
      { f with requests := f.requests ++ [r], memory := (f.memory.answer now r).2 }) := by
  cases r with
  | refresh k ttl => exact absurd rfl (hr k ttl)
  | set | get | delete | deleteIfEquals =>
    simp [receive, Faulty.receive, havailable, Faulty.answer]

/-- What a request that is not for a refresh comes to, when it is answered. -/
theorem Store.receive_plain {s s' : Store} {now : Instant} {r : Request} {a : Answer}
    (hr : ∀ k ttl, r ≠ .refresh k ttl) (h : s.receive now r = (.answered a, s')) :
    (s.isAvailable = true ∧ a = (s.contents.answer now r).1 ∧
      s'.contents = (s.contents.answer now r).2) ∨
    (s.isAvailable = false ∧ (∃ e, a = .failed e) ∧ s'.contents = s.contents) := by
  cases s with
  | memory m => cases h; exact .inl ⟨rfl, rfl, rfl⟩
  | faulty f =>
    cases hun : f.unavailable with
    | true =>
      rw [receive_unavailable hun] at h
      cases h
      exact .inr ⟨by simp [isAvailable, hun], ⟨_, rfl⟩, rfl⟩
    | false =>
      rw [receive_available hun hr] at h
      cases h
      exact .inl ⟨by simp [isAvailable, hun], rfl, rfl⟩

/-! ## Calls -/

/-- A call that is inside the store is for the refresh that it carries out
there. -/
def Call.Sound (c : Call) : Prop :=
  ∀ k ttl due? fails, c.stage = .refreshing k ttl due? fails → c.request = .refresh k ttl

namespace Service

/-- The entry of a key, live or expired. -/
def stored? (s : Service) (k : String) : Option Entry := s.store.contents.entries.find? k

theorem call_sound (s : Service) (now : Instant) (r : Request) : (s.call now r).Sound := by
  intro k ttl due? fails h
  cases h

/-- The entry of a key, if it is live. -/
def live? (s : Service) (now : Instant) (k : String) : Option Entry :=
  s.store.contents.live? (s.face.read now) k

theorem value?_eq (s : Service) (now : Instant) (k : String) :
    s.value? now k = (s.live? now k).map (·.value) :=
  Memory.value?_eq _ _ _

/-- A call that goes on has reached the inside of the store and changed nothing
there. -/
theorem callTurn_moves {now : Instant} {s s' : Service} {c c' : Call} {records : List Log.Record}
    (h : callTurn now s c = .moves s' c' records) :
    c'.Sound ∧ c'.request = c.request ∧ c'.started = c.started ∧
      ∃ store, s' = { s with store } ∧ store.contents = s.store.contents ∧
        store.isFaulty = s.store.isFaulty := by
  simp only [callTurn] at h
  split at h
  next due? _ =>
    split at h
    next =>
      split at h
      next => cases h
      next k ttl latency fails store hreceive =>
        cases h
        obtain ⟨hrequest, hcontents, hkind⟩ := Store.receive_delayed hreceive
        refine ⟨?_, rfl, rfl, store, rfl, hcontents, hkind⟩
        rintro _ _ _ _ ⟨⟩
        exact hrequest
    next => cases h
  next =>
    split at h
    next => cases h
    next => cases h

/-- A call that ends was answered, and its end is in the journal. -/
theorem callTurn_ends {now : Instant} {s s' : Service} {c : Call} {a : Answer}
    {started : List Call} {records : List Log.Record} (hc : c.Sound)
    (h : callTurn now s c = .ends s' a started records) :
    ∃ store, s' = ({ s with store } : Service).finish now c a ∧
      Answers (s.face.read now) s.store.contents c.request a store.contents ∧
      store.isFaulty = s.store.isFaulty := by
  simp only [callTurn] at h
  split at h
  next due? _ =>
    split at h
    next =>
      split at h
      next store hreceive =>
        cases h
        obtain ⟨hanswers, hkind⟩ := Store.receive_answered hreceive
        exact ⟨store, rfl, hanswers, hkind⟩
      next => cases h
    next => cases h
  next k ttl due? fails hstage =>
    split at h
    next =>
      cases h
      obtain ⟨hanswers, hkind⟩ := s.store.finishRefresh_answers (s.face.read now) k ttl fails
      exact ⟨_, rfl, by rwa [hc k ttl due? fails hstage], hkind⟩
    next => cases h

/-- A service after a call was answered: the call is in the journal, it has
failed or was served, and the entries of other keys are what they were. -/
structure Served (now : Instant) (s : Service) (c : Call) (a : Answer) (s' : Service) : Prop where
  face : s'.face = s.face
  wrap : s'.wrap = s.wrap
  kind : s'.store.isFaulty = s.store.isFaulty
  journal : s'.journal = s.journal ++ [⟨c.request, c.started, now, a⟩]
  others : ∀ k, k ≠ c.request.key → s'.stored? k = s.stored? k
  entry : (∃ e, a = .failed e ∧ s'.stored? c.request.key = s.stored? c.request.key) ∨
    (a = (c.request.serve (s.face.read now) (s.live? now c.request.key)).1 ∧
      s'.stored? c.request.key =
        (c.request.serve (s.face.read now) (s.live? now c.request.key)).2)

/-- What an answer from the store in memory makes of a service. -/
theorem served_finish {now : Instant} {s : Service} {c : Call} {a : Answer} {store : Store}
    (hanswers : Answers (s.face.read now) s.store.contents c.request a store.contents)
    (hkind : store.isFaulty = s.store.isFaulty) :
    Served now s c a (({ s with store } : Service).finish now c a) := by
  have hentries : ∀ k, (({ s with store } : Service).finish now c a).stored? k =
      store.contents.entries.find? k := fun _ => rfl
  refine ⟨rfl, rfl, hkind, rfl, fun k hk => ?_, ?_⟩
  · rw [hentries]
    generalize store.contents = m at hanswers
    cases hanswers with
    | fails e => rfl
    | serves => rw [Memory.find?_answer, if_neg hk]; rfl
  · rw [hentries]
    generalize store.contents = m at hanswers
    cases hanswers with
    | fails e => exact .inl ⟨e, rfl, rfl⟩
    | serves =>
      refine .inr ⟨Memory.answer_eq_serve _ _ _, ?_⟩
      rw [Memory.find?_answer, if_pos rfl]
      rfl

theorem served_of_callTurn {now : Instant} {s s' : Service} {c : Call} {a : Answer}
    {started : List Call} {records : List Log.Record} (hc : c.Sound)
    (h : callTurn now s c = .ends s' a started records) : Served now s c a s' := by
  obtain ⟨store, rfl, hanswers, hkind⟩ := callTurn_ends hc h
  exact served_finish hanswers hkind

/-- A call that has arrived ends with what the store answers, unless it is for a
refresh. -/
theorem callTurn_arrives {now due : Instant} {s : Service} {c : Call}
    (hstage : c.stage = .approaching (some due)) (hdue : due ≤ now)
    (hrequest : ∀ k ttl, c.request ≠ .refresh k ttl) :
    ∃ a store, s.store.receive (s.face.read now) c.request = (.answered a, store) ∧
      callTurn now s c = .ends (({ s with store } : Service).finish now c a) a [] [] := by
  have hisDue : isDue now (some due) = true := decide_eq_true hdue
  cases hreceive : s.store.receive (s.face.read now) c.request with
  | mk arrival store =>
    cases arrival with
    | answered a =>
      refine ⟨a, store, rfl, ?_⟩
      simp only [callTurn, hstage, hisDue, hreceive, if_true]
    | delayed k ttl latency fails =>
      exact absurd (Store.receive_delayed hreceive).1 (hrequest k ttl)

/-- A call that has not arrived waits. -/
theorem callTurn_approaches {now due : Instant} (s : Service) {c : Call}
    (hstage : c.stage = .approaching (some due)) (hdue : now < due) :
    callTurn now s c = .waits (some due) := by
  have hisDue : isDue now (some due) = false := decide_eq_false (Nat.not_le.mpr hdue)
  simp only [callTurn, hstage, hisDue, Bool.false_eq_true, if_false]

/-- A call for something else than a refresh waits, or it ends with what the store answers. -/
theorem callTurn_plain {now : Instant} {s : Service} {c : Call} (hc : c.Sound)
    (hrequest : ∀ k ttl, c.request ≠ .refresh k ttl) :
    (∃ due?, callTurn now s c = .waits due?) ∨
      ∃ a store, s.store.receive (s.face.read now) c.request = (.answered a, store) ∧
        callTurn now s c = .ends (({ s with store } : Service).finish now c a) a [] [] := by
  cases hstage : c.stage with
  | refreshing k ttl due? fails => exact absurd (hc k ttl due? fails hstage) (hrequest k ttl)
  | approaching due? =>
    cases due? with
    | none => exact .inl ⟨none, by simp [callTurn, hstage, isDue]⟩
    | some due =>
      by_cases hdue : due ≤ now
      · exact .inr (callTurn_arrives hstage hdue hrequest)
      · exact .inl ⟨some due, callTurn_approaches s hstage (Nat.lt_of_not_le hdue)⟩

/-- A store in memory answers every call that has arrived. -/
theorem callTurn_arrives_memory {now due : Instant} {s : Service} {c : Call} {m : Memory}
    (hstage : c.stage = .approaching (some due)) (hdue : due ≤ now) (hs : s.store = .memory m) :
    ∃ a s', callTurn now s c = .ends s' a [] [] := by
  have hisDue : isDue now (some due) = true := decide_eq_true hdue
  simp only [callTurn, hstage, hisDue, hs, Store.receive, if_true]
  exact ⟨_, _, rfl⟩

/-- What takes no time is due at once. -/
theorem isDue_after?_zero (now : Instant) : isDue now (now.after? .zero) = true := by
  rw [Instant.after?_zero]
  exact decide_eq_true (Nat.le_refl now.nanos)

/-- A store that takes requests sets a key that is free. -/
theorem callTurn_set_free {now : Instant} {s : Service} {k v : String} {ttl : Duration}
    (hlatency : s.latency .set = .zero) (havailable : s.store.isAvailable = true)
    (hfree : s.live? now k = none) :
    ∃ s', callTurn now s (s.call now (.set k v ttl)) = .ends s' .acquired [] [] := by
  obtain ⟨store, hreceive⟩ := Store.receive_set_free v ttl havailable hfree
  have hdue : isDue now (now.after? (s.latency (Request.set k v ttl).kind)) = true := by
    rw [Request.kind, hlatency]
    exact isDue_after?_zero now
  exact ⟨_, by simp only [callTurn, call, hdue, hreceive]; rfl⟩

/-! ## Refreshes -/

/-- A refresh has failed and changed nothing, or the store in memory has served
it, as `fails` says. -/
inductive Refreshed (now : Instant) (m : Memory) (k : String) (ttl : Duration) :
    Bool → Answer → Memory → Prop where
  | fails (e : StoreError) : Refreshed now m k ttl true (.failed e) m
  | serves :
      Refreshed now m k ttl false (m.answer now (.refresh k ttl)).1
        (m.answer now (.refresh k ttl)).2

/-- A refresh that arrives ends at once, or it goes on inside a store that takes
time for it.  The switches of the store tell which. -/
theorem callTurn_refresh_arrives (s : Service) {now due : Instant} (hdue : due ≤ now) (k : String)
    (ttl : Duration) (started : Instant) :
    let c : Call := ⟨.refresh k ttl, started, .approaching (some due)⟩
    (∃ a store,
      callTurn now s c = .ends (({ s with store } : Service).finish now c a) a [] [] ∧
        Refreshed (s.face.read now) s.store.contents k ttl s.store.failsRefresh a store.contents ∧
        store.isFaulty = s.store.isFaulty ∧
        (s.store.refreshDelay.nanos = 0 ∨ s.store.failsRefresh = true)) ∨
    (∃ store,
      callTurn now s c =
          .moves { s with store }
            ⟨.refresh k ttl, started,
              .refreshing k ttl (now.after? s.store.refreshDelay) s.store.failsRefresh⟩ [] ∧
        store.contents = s.store.contents ∧ store.isFaulty = true ∧ s.store.isFaulty = true) := by
  have hisDue : isDue now (some due) = true := by simpa [isDue] using hdue
  obtain ⟨store, wrap, face, latency, journal⟩ := s
  cases store with
  | memory m =>
      refine .inl ⟨(m.refresh (face.read now) k ttl).1, .memory (m.refresh (face.read now) k ttl).2,
        ?_, .serves, rfl, .inl rfl⟩
      simp [callTurn, hisDue, Store.receive, Memory.answer]
  | faulty f =>
      by_cases hun : f.unavailable = true
      · have hfails : (Store.faulty f).failsRefresh = true := by simp [Store.failsRefresh, hun]
        refine .inl ⟨.failed (.connection "fake store unavailable"),
          .faulty { f with requests := f.requests ++ [.refresh k ttl] }, ?_, ?_, rfl, .inr ?_⟩
        · simp [callTurn, hisDue, Store.receive, Faulty.receive, hun]
        · rw [hfails]
          exact .fails _
        · exact hfails
      · by_cases hzero : f.refreshLatency.isZero = true
        · have hnanos : f.refreshLatency.nanos = 0 := by simpa [Duration.isZero] using hzero
          cases hflag : f.refreshFails with
          | true =>
              have hfails : (Store.faulty f).failsRefresh = true := by
                simp [Store.failsRefresh, hflag]
              refine .inl ⟨.failed (.command "fake refresh failure"),
                .faulty { f with requests := f.requests ++ [.refresh k ttl] }, ?_, ?_, rfl,
                .inl hnanos⟩
              · simp [callTurn, hisDue, Store.receive, Faulty.receive, hun, hzero,
                  Faulty.finishRefresh, hflag]
              · rw [hfails]
                exact .fails _
          | false =>
              have hfails : (Store.faulty f).failsRefresh = false := by
                simp [Store.failsRefresh, hun, hflag]
              refine .inl ⟨(f.memory.refresh (face.read now) k ttl).1,
                .faulty { f with
                  requests := f.requests ++ [.refresh k ttl]
                  memory := (f.memory.refresh (face.read now) k ttl).2 }, ?_, ?_, rfl,
                .inl hnanos⟩
              · simp [callTurn, hisDue, Store.receive, Faulty.receive, hun, hzero,
                  Faulty.finishRefresh, hflag]
              · rw [hfails]
                exact .serves
        · refine .inr ⟨.faulty { f with requests := f.requests ++ [.refresh k ttl] }, ?_, rfl, rfl,
            rfl⟩
          simp [callTurn, hisDue, Store.receive, Faulty.receive, hun, hzero, Store.failsRefresh,
            Store.refreshDelay]

/-- A refresh that is under way inside a store with switches ends as was settled
when it arrived. -/
theorem callTurn_refresh_lands (s : Service) {now due : Instant} (hdue : due ≤ now) (k : String)
    (ttl : Duration) (started : Instant) (fails : Bool) (hkind : s.store.isFaulty = true) :
    let c : Call := ⟨.refresh k ttl, started, .refreshing k ttl (some due) fails⟩
    ∃ a store,
      callTurn now s c = .ends (({ s with store } : Service).finish now c a) a [] [] ∧
        Refreshed (s.face.read now) s.store.contents k ttl fails a store.contents ∧
        store.isFaulty = true := by
  have hisDue : isDue now (some due) = true := by simpa [isDue] using hdue
  obtain ⟨store, wrap, face, latency, journal⟩ := s
  cases store with
  | memory m => cases hkind
  | faulty f =>
      cases fails with
      | true =>
          refine ⟨.failed (.command "fake refresh failure"), .faulty f, ?_, .fails _, rfl⟩
          simp [callTurn, hisDue, Store.finishRefresh, Faulty.finishRefresh]
      | false =>
          refine ⟨(f.memory.refresh (face.read now) k ttl).1,
            .faulty { f with memory := (f.memory.refresh (face.read now) k ttl).2 }, ?_, .serves,
            rfl⟩
          simp [callTurn, hisDue, Store.finishRefresh, Faulty.finishRefresh]

/-- Until then it waits. -/
theorem callTurn_waits (s : Service) {now due : Instant} (hdue : ¬ due ≤ now) (request : Request)
    (started : Instant) (k : String) (ttl : Duration) (fails : Bool) :
    callTurn now s ⟨request, started, .refreshing k ttl (some due) fails⟩ = .waits (some due) := by
  have hisDue : isDue now (some due) = false := decide_eq_false hdue
  simp [callTurn, hisDue]

/-! ## What is done without a call -/

/-- A service that has changed nothing but its switches and latencies, and has
dropped entries that had expired. -/
structure Kept (now : Instant) (s s' : Service) : Prop where
  face : s'.face = s.face
  wrap : s'.wrap = s.wrap
  journal : s'.journal = s.journal
  kind : s'.store.isFaulty = s.store.isFaulty
  entries : ∀ k, s'.stored? k = s.stored? k ∨
    s'.stored? k = s.store.contents.live? (s.face.read now) k

theorem Kept.refl (now : Instant) (s : Service) : Kept now s s where
  face := rfl
  wrap := rfl
  journal := rfl
  kind := rfl
  entries _ := .inl rfl

/-- What is dropped had expired. -/
theorem Kept.live? {now : Instant} {s s' : Service} (h : Kept now s s') (k : String) :
    s'.live? now k = s.live? now k := by
  have hlive : (s.live? now k).filter (·.liveAt (s.face.read now)) = s.live? now k :=
    (s.store.contents.live?_later (Nat.le_refl _) k).symm
  have hentry : s'.live? now k = (s'.stored? k).filter (·.liveAt (s.face.read now)) := by
    rw [← h.face]
    rfl
  obtain hsame | hsame := h.entries k
  · rw [hentry, hsame]
    rfl
  · rw [hentry, hsame]
    exact hlive

/-- Switches do not touch entries. -/
theorem kept_alterFaulty (now : Instant) (s : Service) {f : Faulty → Faulty}
    (hf : ∀ x, (f x).memory = x.memory) : Kept now s (s.alterFaulty f) := by
  obtain ⟨store, wrap, face, latency, journal⟩ := s
  cases store with
  | memory m => exact .refl now _
  | faulty x => exact ⟨rfl, rfl, rfl, rfl, fun k => .inl (by
      simp [stored?, alterFaulty, Store.contents, hf])⟩

/-- A call that goes on leaves the entries alone. -/
theorem kept_of_callTurn {now : Instant} {s s' : Service} {c c' : Call} {records : List Log.Record}
    (h : callTurn now s c = .moves s' c' records) : Kept now s s' := by
  obtain ⟨-, -, -, store, rfl, hcontents, hkind⟩ := callTurn_moves h
  exact ⟨rfl, rfl, rfl, hkind, fun k => .inl (by simp [stored?, hcontents])⟩

/-- An action without a call only drops expired entries. -/
theorem act_kept (now : Instant) (s : Service) (a : StoreAction) :
    Kept now s (s.act now a).1 := by
  cases a with
  | request | sleep | ttl | requests | refreshCount => exact .refl now s
  | latency kind d => exact ⟨rfl, rfl, rfl, rfl, fun k => .inl rfl⟩
  | value k =>
      obtain ⟨store, wrap, face, latency, journal⟩ := s
      refine ⟨rfl, rfl, rfl, by cases store <;> rfl, fun j => ?_⟩
      have hcontents : ((store.withContents (store.contents.purge (face.read now) k)).contents) =
          store.contents.purge (face.read now) k := by
        cases store <;> rfl
      simp only [act, stored?, hcontents, Memory.find?_purge]
      by_cases hj : j = k
      · exact .inr (by simp [hj])
      · exact .inl (by simp [hj])
  | size =>
      obtain ⟨store, wrap, face, latency, journal⟩ := s
      cases store with
      | memory m => exact ⟨rfl, rfl, rfl, rfl, fun k => .inr (Memory.find?_purgeAll m _ k)⟩
      | faulty f => exact .refl now _
  | clearRequests | unavailable | refreshFails | refreshLatency =>
      exact kept_alterFaulty now s fun _ => rfl

/-- A service that takes requests, and takes no time to set a key, after its
latency and its switch were set so. -/
theorem act_ready (now : Instant) (s : Service) (k : String) :
    let s' := ((s.act now (.latency .set .zero)).1.act now (.unavailable false)).1
    s'.latency .set = .zero ∧ s'.store.isAvailable = true ∧ s'.live? now k = s.live? now k := by
  obtain ⟨store, wrap, face, latency, journal⟩ := s
  cases store <;> exact ⟨rfl, rfl, rfl⟩

/-! ## Errands -/

theorem errand_eq_single {s : Service} (hs : s.wrap ≠ .primitive) (now : Instant) (r : Request) :
    s.errand now r = .single (s.call now r) := by
  unfold errand
  split
  next hwrap => exact absurd hwrap hs
  next => rfl

theorem errand_set (s : Service) (now : Instant) (k v : String) (ttl : Duration) :
    s.errand now (.set k v ttl) = .single (s.call now (.set k v ttl)) := by
  unfold errand
  split
  next hset => cases hset
  next => rfl

theorem errand_refresh (s : Service) (now : Instant) (k : String) (ttl : Duration) :
    s.errand now (.refresh k ttl) = .single (s.call now (.refresh k ttl)) := by
  unfold errand
  split
  next hrefresh => cases hrefresh
  next => rfl

/-- An errand of a single call waits, goes on and ends as the call does. -/
theorem turn_single (now : Instant) (s : Service) (c : Call) :
    s.turn now (.single c) =
      match callTurn now s c with
      | .waits due? => .waits due?
      | .moves s c records => .moves s (.single c) records
      | .ends s a _ records => .ends s a [] (records ++ s.traceOf c.request a) := by
  simp only [turn, Turn.within]
  cases callTurn now s c <;> rfl

end Service

end Leasehold
