import Leasehold.Proofs.Simulation.Completion
import Leasehold.Proofs.Store.Likeness

/-!
# Wrappers of a store

A store looks neither at its record nor at what stands before it, so a call comes to
the same behind every wrapper (`Service.completes_behind`).  An errand to compare and
delete is another matter: it is one call or up to two, its legs (`Legs`).  The legs find
and leave the same as the one call, as long as requests take no time to reach the store
(`Service.exists_legs`).
-/

namespace Leasehold

open Simulation

/-! ## Stores with another record -/

/-- The store with another record of requests, if it keeps one. -/
def Store.recording (s : Store) (requests : List Request) : Store :=
  match s with
  | .memory m => .memory m
  | .faulty f => .faulty { f with requests }

/-- The service behind another wrapper, with another record and another journal. -/
def Service.behind (s : Service) (wrap : Wrap) (requests : List Request)
    (journal : List Finished) : Service :=
  { s with wrap, journal, store := s.store.recording requests }

/-- The service behind another wrapper. -/
def Service.through (s : Service) (wrap : Wrap) : Service := { s with wrap }

namespace Store

variable {now : Instant}

theorem recording_requests (s : Store) : s.recording s.requests = s := by
  cases s <;> rfl

@[simp] theorem recording_recording (s : Store) (rs rs' : List Request) :
    (s.recording rs).recording rs' = s.recording rs' := by
  cases s <;> rfl

/-- A store does not look at its record, and adds each request to it. -/
theorem receive_recording (s : Store) (now : Instant) (r : Request) (rs : List Request) :
    (s.recording rs).receive now r =
      ((s.receive now r).1, (s.receive now r).2.recording (rs ++ [r])) := by
  cases s with
  | memory m => rfl
  | faulty f =>
    simp only [recording, receive, Faulty.receive]
    split
    · rfl
    · cases r with
      | refresh k ttl =>
        simp only [Faulty.finishRefresh]
        split
        · split <;> rfl
        · rfl
      | set | get | delete | deleteIfEquals => rfl

theorem finishRefresh_recording (s : Store) (now : Instant) (k : String) (ttl : Duration)
    (fails : Bool) (rs : List Request) :
    (s.recording rs).finishRefresh now k ttl fails =
      ((s.finishRefresh now k ttl fails).1,
        (s.finishRefresh now k ttl fails).2.recording rs) := by
  cases s with
  | memory m => rfl
  | faulty f =>
    simp only [recording, finishRefresh, Faulty.finishRefresh]
    split <;> rfl

end Store

/-! ## Comparing and deleting -/

/-- The answer to a comparison with a value, when a key was read and is not to be deleted. -/
def Answer.compared (v : String) : Answer → Answer
  | .value found? => .removed (found? = some v)
  | a => a

namespace Memory

theorem purge_purge (m : Memory) (now : Instant) (k : String) :
    (m.purge now k).purge now k = m.purge now k := by
  cases hfound : m.entries.find? k with
  | none => simp only [purge, hfound]
  | some e =>
    cases hlive : e.liveAt now with
    | true => simp only [purge, hfound, hlive, if_true]
    | false =>
      have hgone : (m.entries.erase k).find? k = none := by simp
      simp [purge, hfound, hlive, hgone]

/-- To compare and delete is to read a key, and to delete it if it has the value. -/
theorem deleteIfEquals_eq (m : Memory) (now : Instant) (k v : String) :
    m.deleteIfEquals now k v =
      if m.value? now k = some v then (.removed true, ((m.get now k).2.delete now k).2)
      else (.removed false, (m.get now k).2) := by
  simp only [deleteIfEquals, get, delete, value?, purge_purge]
  cases (m.purge now k).entries.find? k with
  | none => rfl
  | some e => simp only [Option.map_some, Option.some.injEq]

end Memory

/-- What the fifth request finds and leaves is what the second one does, and then the third
one if it is called for. -/
theorem Store.receive_deleteIfEquals (s : Store) (now : Instant) (k v : String) :
    ∃ b s₁, s.receive now (.get k) = (.answered b, s₁) ∧
      ((b = .value (some v) ∧ ∃ s₂, s₁.receive now (.delete k) = (.answered .done, s₂) ∧
        s.receive now (.deleteIfEquals k v) = (.answered (.removed true),
          s₂.recording (s.requests ++ [.deleteIfEquals k v]))) ∨
      (b ≠ .value (some v) ∧
        s.receive now (.deleteIfEquals k v) = (.answered (b.compared v),
          s₁.recording (s.requests ++ [.deleteIfEquals k v])))) := by
  cases s with
  | memory m =>
    refine ⟨_, _, rfl, ?_⟩
    by_cases hvalue : m.value? now k = some v
    · refine .inl ⟨congrArg Answer.value hvalue, _, rfl, ?_⟩
      simp only [receive, Memory.answer, Memory.deleteIfEquals_eq, if_pos hvalue, recording]
      rfl
    · refine .inr ⟨fun h => hvalue (Answer.value.inj h), ?_⟩
      simp [receive, Memory.answer, Memory.deleteIfEquals_eq, hvalue, recording, Answer.compared,
        Memory.get]
  | faulty f =>
    cases hun : f.unavailable with
    | true =>
      exact ⟨_, _, receive_unavailable hun _, .inr ⟨by simp, receive_unavailable hun _⟩⟩
    | false =>
      have hcompare : (Store.faulty f).receive now (.deleteIfEquals k v) = _ :=
        receive_available hun (by simp)
      refine ⟨_, _, receive_available hun (by simp), ?_⟩
      rw [hcompare]
      by_cases hvalue : f.memory.value? now k = some v
      · refine .inl ⟨congrArg Answer.value hvalue, _, receive_available hun (by simp), ?_⟩
        simp only [Memory.answer, Memory.deleteIfEquals_eq, if_pos hvalue, recording, requests]
      · refine .inr ⟨fun h => hvalue (Answer.value.inj h), ?_⟩
        simp [Memory.answer, Memory.deleteIfEquals_eq, hvalue, recording, requests,
          Answer.compared, Memory.get]

/-- The calls to a store that takes the first four requests only, which stand for a call to
a store that takes all five. -/
inductive Legs : Finished → List Finished → Prop where
  | single {x} : (∀ k v, x.request ≠ .deleteIfEquals k v) → Legs x [x]
  | found {k v t} :
      Legs ⟨.deleteIfEquals k v, t, t, .removed true⟩
        [⟨.get k, t, t, .value (some v)⟩, ⟨.delete k, t, t, .done⟩]
  | missed {k v t b} :
      b ≠ .value (some v) → Legs ⟨.deleteIfEquals k v, t, t, b.compared v⟩ [⟨.get k, t, t, b⟩]

/-! ## Calls behind a wrapper -/

/-- The request that has not reached the store. -/
def Call.pending (c : Call) : List Request :=
  match c.stage with
  | .approaching _ => [c.request]
  | .refreshing .. => []

namespace Service

variable {t u : Instant} {s s' : Service} {c : Call} {a : Answer}

theorem behind_self (s : Service) : s.behind s.wrap s.store.requests s.journal = s := by
  rw [behind, Store.recording_requests]

@[simp] theorem behind_behind (s : Service) (wrap wrap' : Wrap) (rs rs' : List Request)
    (js js' : List Finished) :
    (s.behind wrap rs js).behind wrap' rs' js' = s.behind wrap' rs' js' := by
  simp only [behind, Store.recording_recording]

/-- A call does the same behind every wrapper. -/
theorem callTurn_behind (now : Instant) (s : Service) (c : Call) (wrap : Wrap)
    (rs : List Request) (js : List Finished) :
    callTurn now (s.behind wrap rs js) c =
      match callTurn now s c with
      | .waits due? => .waits due?
      | .moves s' c' records => .moves (s'.behind wrap (rs ++ c.pending) js) c' records
      | .ends s' a started records =>
          .ends (s'.behind wrap (rs ++ c.pending) (js ++ [⟨c.request, c.started, now, a⟩])) a
            started records := by
  obtain ⟨request, began, stage⟩ := c
  cases stage with
  | approaching due? =>
    simp only [callTurn, behind]
    split
    · rw [Store.receive_recording]
      cases hreceive : s.store.receive (s.face.read now) request with
      | mk arrival store => cases arrival <;> rfl
    · rfl
  | refreshing k ttl due? fails =>
    simp only [callTurn, behind]
    split
    · rw [Store.finishRefresh_recording]
      simp only [finish, Call.pending, List.append_nil]
    · rfl

theorem pending_of_moves {records : List Log.Record} {c' : Call}
    (h : callTurn t s c = .moves s' c' records) : c'.pending = [] := by
  simp only [callTurn] at h
  split at h
  next =>
    split at h
    next =>
      split at h
      next => cases h
      next => cases h; rfl
    next => cases h
  next =>
    split at h
    next => cases h
    next => cases h

/-- What a call comes to behind a wrapper: it ends as it would without, and the record and
the journal have one more entry each. -/
theorem completes_behind (h : Completes callTurn t s c u s' a) (wrap : Wrap)
    (rs : List Request) (js : List Finished) :
    Completes callTurn t (s.behind wrap rs js) c u
      (s'.behind wrap (rs ++ c.pending) (js ++ [⟨c.request, c.started, u, a⟩])) a := by
  induction h generalizing rs with
  | @ends t s c s' a started records hends =>
    have hturn := callTurn_behind t s c wrap rs js
    rw [hends] at hturn
    exact .ends hturn
  | @moves t s c s' c' records u v a hmoves _ ih =>
    have hturn := callTurn_behind t s c wrap rs js
    rw [hmoves] at hturn
    obtain ⟨-, hrequest, hstarted, -⟩ := callTurn_moves hmoves
    have hrest := ih (rs ++ c.pending)
    rw [pending_of_moves hmoves, List.append_nil, hrequest, hstarted] at hrest
    exact .moves hturn hrest
  | @waits t s c due u v a hwaits hle _ ih =>
    have hturn := callTurn_behind t s c wrap rs js
    rw [hwaits] at hturn
    exact .waits hturn hle (ih rs)

/-- A call that is over is the last one on record and in the journal, and has left the
wrapper alone. -/
theorem behind_of_completes (h : Completes callTurn t s c u s' a) :
    s' = s'.behind s.wrap (s.store.requests ++ c.pending)
      (s.journal ++ [⟨c.request, c.started, u, a⟩]) := by
  have hbehind := completes_behind h s.wrap s.store.requests s.journal
  rw [behind_self] at hbehind
  exact (h.unique hbehind).2.1

/-! ## Errands -/

/-- An errand of one call ends as the call does. -/
theorem completes_single :
    Completes turn t s (.single c) u s' a ↔ Completes callTurn t s c u s' a := by
  have hturn : ∀ t s c, turn t s (.single c) = (callTurn t s c).within id .single
      ((fun c _ s a => .ends s a [] (s.traceOf c.request a) :
        Call → Instant → Service → Answer → Turn Service Errand Answer) c t) := fun _ _ _ => rfl
  constructor
  · intro h
    obtain ⟨_, _, _, _, hcall, rfl, rfl, rfl⟩ := h.of_within hturn nofun
    exact hcall
  · intro h
    exact h.within hturn fun _ => ⟨rfl, rfl, rfl⟩

theorem compared_found (s : Service) (now : Instant) (k v : String) :
    s.compared now k v (.value (some v)) = .moves s (.deleting (s.call now (.delete k))) [] :=
  if_pos rfl

theorem compared_missed {k v : String} (h : a ≠ .value (some v)) :
    s.compared t k v a = .ends s (a.compared v) [] [] := by
  cases a with
  | value found? =>
    cases found? with
    | none => rfl
    | some w =>
      have hne : w ≠ v := fun hw => h (congrArg (Answer.value ∘ some) hw)
      simp [compared, Answer.compared, hne]
  | acquired | occupied | done | removed | failed => rfl

theorem compared_ne_waits {k v : String} {due? : Option Instant} :
    s.compared t k v a ≠ .waits due? := by
  by_cases ha : a = .value (some v)
  · rw [ha, compared_found]; nofun
  · rw [compared_missed ha]; nofun

/-- An errand of two calls ends with the first one, or goes on with the second. -/
theorem completes_comparing_iff {k v : String} {u' : Instant} {s'' : Service} {b : Answer} :
    Completes turn t s (.comparing k v c) u' s'' b ↔
      ∃ u s' a, Completes callTurn t s c u s' a ∧
        (s'.compared u k v a).Leads turn u u' s'' b := by
  have hturn : ∀ t s c, turn t s (.comparing k v c) = (callTurn t s c).within id (.comparing k v)
      ((fun _ t s a => s.compared t k v a :
        Call → Instant → Service → Answer → Turn Service Errand Answer) c t) := fun _ _ _ => rfl
  constructor
  · intro h
    obtain ⟨_, u, s', a, hcall, hrest⟩ := h.of_within hturn compared_ne_waits
    exact ⟨u, s', a, hcall, hrest⟩
  · rintro ⟨u, s', a, hcall, hrest⟩
    exact hcall.within hturn fun _ => hrest

theorem completes_deleting_iff {b : Answer} :
    Completes turn t s (.deleting c) u s' b ↔
      ∃ a, Completes callTurn t s c u s' a ∧ b = deleted a := by
  have hturn : ∀ t s c, turn t s (.deleting c) = (callTurn t s c).within id .deleting
      ((fun _ _ s a => .ends s (deleted a) [] [] :
        Call → Instant → Service → Answer → Turn Service Errand Answer) c t) := fun _ _ _ => rfl
  constructor
  · intro h
    obtain ⟨_, _, _, a, hcall, rfl, rfl, rfl⟩ := h.of_within hturn nofun
    exact ⟨a, hcall, rfl⟩
  · rintro ⟨a, hcall, rfl⟩
    exact hcall.within hturn fun _ => ⟨rfl, rfl, rfl⟩

/-! ## The legs of an errand -/

/-- A call that takes no time to reach the store ends at once, if the store does not
delay it. -/
theorem completes_of_receive {r : Request} {store : Store} (hlatency : s.latency r.kind = .zero)
    (h : s.store.receive (s.face.read t) r = (.answered a, store)) :
    Completes callTurn t s (s.call t r) t
      (({ s with store } : Service).finish t (s.call t r) a) a := by
  have hdue : isDue t (t.after? (s.latency r.kind)) = true := by
    rw [hlatency]
    exact isDue_after?_zero t
  have hturn : callTurn t s (s.call t r) =
      .ends (({ s with store } : Service).finish t (s.call t r) a) a [] [] := by
    simp only [callTurn, call, hdue, h, if_true]
  exact .ends hturn

/-- To compare and delete in one call or in its legs comes to the same. -/
theorem exists_legs (hlatency : ∀ kind, s.latency kind = .zero) (t : Instant) (k v : String) :
    ∃ s' a legs, Completes callTurn t s (s.call t (.deleteIfEquals k v)) t s' a ∧
      Legs ⟨.deleteIfEquals k v, t, t, a⟩ legs ∧
      ∀ rs js, Completes turn t (s.behind .primitive rs js)
        (.comparing k v (s.call t (.get k))) t
        (s'.behind .primitive (rs ++ legs.map (·.request)) (js ++ legs)) a := by
  obtain ⟨b, s₁, hget, ⟨rfl, s₂, hdelete, hcompare⟩ | ⟨hb, hcompare⟩⟩ :=
    s.store.receive_deleteIfEquals (s.face.read t) k v
  · have hfirst := completes_of_receive (hlatency _) hget
    have hsecond := completes_of_receive
      (s := ({ s with store := s₁ } : Service).finish t (s.call t (.get k)) (.value (some v)))
      (hlatency (Request.delete k).kind) hdelete
    refine ⟨_, _, _, completes_of_receive (hlatency _) hcompare, .found, fun rs js => ?_⟩
    refine completes_comparing_iff.mpr ⟨_, _, _, completes_behind hfirst .primitive rs js, ?_⟩
    rw [compared_found]
    have hrest := completes_deleting_iff.mpr ⟨_, completes_behind hsecond .primitive
      (rs ++ [Request.get k]) (js ++ [⟨.get k, t, t, .value (some v)⟩]), rfl⟩
    simpa [Turn.Leads, behind, finish, Call.pending, call, deleted] using hrest
  · have hfirst := completes_of_receive (hlatency _) hget
    refine ⟨_, _, _, completes_of_receive (hlatency _) hcompare, .missed hb, fun rs js => ?_⟩
    refine completes_comparing_iff.mpr ⟨_, _, _, completes_behind hfirst .primitive rs js, ?_⟩
    rw [compared_missed hb]
    refine ⟨rfl, ?_, rfl⟩
    simp only [behind, finish, Store.recording_recording]
    rfl

end Service

end Leasehold
