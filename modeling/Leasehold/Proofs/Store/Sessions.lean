import Leasehold.Proofs.Store.Wrappers

/-!
# Sessions with a store

A session is a series of calls to a store, each begun when the one before it is over.
Between two calls the switches of the store and its clock may change.

A caller cannot tell what stands before the store (`Service.transparent`).  A traced store
takes and answers the same calls as the store itself.  Behind a wrapper that takes the
first four requests only, the store takes the legs of the calls, and all answers and all
entries are the same.
-/

namespace Leasehold

open Simulation

/-- A change of a store's switches or of its clock. -/
inductive Alteration where
  /-- Make every request fail, or work again. -/
  | unavailable (on : Bool)
  /-- Make every refresh fail, or work again. -/
  | refreshFails (on : Bool)
  /-- Let a refresh take a time inside the store. -/
  | refreshLatency (d : Duration)
  /-- Set the store's clock, if it is moved by hand. -/
  | clock (reading : Instant)

/-- What happens in a session. -/
inductive Incident where
  /-- A call is made and answered. -/
  | call (x : Finished)
  /-- A switch or the clock changes. -/
  | alteration (a : Alteration)

/-- The calls among the incidents. -/
def Incident.calls (l : List Incident) : List Finished :=
  l.filterMap fun
    | call x => some x
    | alteration _ => none

namespace Service

/-- The service after a change. -/
def alter (s : Service) (now : Instant) : Alteration → Service
  | .unavailable on => (s.act now (.unavailable on)).1
  | .refreshFails on => (s.act now (.refreshFails on)).1
  | .refreshLatency d => (s.act now (.refreshLatency d)).1
  | .clock reading => { s with face := s.face.set reading }

/-- A session that begins at an instant with a service and ends at another one with
another. -/
inductive Session : Instant → Service → List Incident → Instant → Service → Prop where
  | nil {t s} : Session t s [] t s
  | call {t s x s₁ l u s'} :
      t ≤ x.started →
      Completes turn x.started s (s.errand x.started x.request) x.finished s₁ x.answer →
      Session x.finished s₁ l u s' → Session t s (.call x :: l) u s'
  | alteration {t s a l u s'} :
      Session t (s.alter t a) l u s' → Session t s (.alteration a :: l) u s'

open Incident (calls)

variable {t u : Instant} {s s' w : Service} {c : Call} {r : Request} {a : Answer} {wrap : Wrap}
  {l : List Incident} {rs : List Request} {js : List Finished}

/-- A session is settled by its incidents. -/
theorem Session.unique {u' : Instant} (h : Session t s l u s') (h' : Session t s l u' w) :
    u = u' ∧ s' = w := by
  induction h with
  | nil => cases h'; exact ⟨rfl, rfl⟩
  | call _ hcall _ ih =>
    cases h' with
    | call _ hcall' hrest' =>
      obtain ⟨-, rfl, -⟩ := hcall.unique hcall'
      exact ih hrest'
  | alteration _ ih =>
    cases h' with
    | alteration hrest' => exact ih hrest'

/-! ## One call -/

theorem errand_direct (h : s.wrap = .direct) : s.errand t r = .single (s.call t r) :=
  errand_eq_single (by simp [h]) t r

/-- A call reaches the store and is answered, and changes nothing else. -/
theorem completes_answers (hc : c.Sound) (h : Completes callTurn t s c u s' a) :
    ∃ store, s' = ({ s with store } : Service).finish u c a ∧
      Answers (s.face.read u) s.store.contents c.request a store.contents := by
  induction h with
  | ends hends =>
    obtain ⟨store, hs', hanswers, -⟩ := callTurn_ends hc hends
    exact ⟨store, hs', hanswers⟩
  | moves hmoves _ ih =>
    obtain ⟨hc', hrequest, hstarted, store₁, rfl, hcontents, -⟩ := callTurn_moves hmoves
    obtain ⟨store, rfl, hanswers⟩ := ih hc'
    refine ⟨store, ?_, ?_⟩
    · simp only [finish, hrequest, hstarted]
    · rw [← hrequest, ← hcontents]
      exact hanswers
  | waits _ _ _ ih => exact ih hc

/-- A call ends if a refresh does. -/
theorem exists_completes (hlatency : ∀ kind, s.latency kind = .zero)
    (hdelay : t.after? s.store.refreshDelay ≠ none) (r : Request) :
    ∃ u s' a, Completes callTurn t s (s.call t r) u s' a := by
  have hstage : (s.call t r).stage = .approaching (some t) := by
    rw [call, hlatency, Instant.after?_zero]
  by_cases hr : ∀ k ttl, r ≠ .refresh k ttl
  · obtain ⟨a, store, -, hturn⟩ := callTurn_arrives hstage (Nat.le_refl _) hr
    exact ⟨t, _, a, .ends hturn⟩
  · push Not at hr
    obtain ⟨k, ttl, rfl⟩ := hr
    have hcall : s.call t (.refresh k ttl) = ⟨.refresh k ttl, t, .approaching (some t)⟩ := by
      rw [call, hlatency, Instant.after?_zero]
    obtain ⟨due, hdue⟩ := Option.ne_none_iff_exists'.mp hdelay
    have hle : t ≤ due := Instant.le_of_after?_eq_some hdue
    rw [hcall]
    rcases callTurn_refresh_arrives s (Nat.le_refl t.nanos) k ttl t with
      ⟨a, store, hturn, -⟩ | ⟨store, hturn, -, hkind, -⟩
    · exact ⟨t, _, a, .ends hturn⟩
    · rw [hdue] at hturn
      obtain ⟨a, store', hlands, -⟩ := callTurn_refresh_lands { s with store }
        (Nat.le_refl due.nanos) k ttl t s.store.failsRefresh hkind
      have hlanded : Completes callTurn _ _ _ _ _ _ := .ends hlands
      by_cases hnow : due ≤ t
      · have hsame : due = t := Instant.ext (Nat.le_antisymm hnow hle)
        rw [hsame] at hturn hlanded
        exact ⟨_, _, a, .moves hturn hlanded⟩
      · exact ⟨due, _, a, .moves hturn (.waits (callTurn_waits _ hnow _ t k ttl _) hle hlanded)⟩

/-! ## A call and its legs -/

theorem errand_primitive (hr : ∀ k v, r ≠ .deleteIfEquals k v) (rs : List Request)
    (js : List Finished) :
    (s.behind .primitive rs js).errand t r = .single (s.call t r) := by
  cases r with
  | deleteIfEquals k v => exact absurd rfl (hr k v)
  | set | get | delete | refresh => rfl

/-- A call to the store itself, and its legs behind a wrapper. -/
theorem legs_of_completes (hs : s.wrap = .direct) (hlatency : ∀ kind, s.latency kind = .zero)
    (h : Completes turn t s (s.errand t r) u s' a) :
    ∃ legs, Legs ⟨r, t, u, a⟩ legs ∧ ∀ rs js,
      Completes turn t (s.behind .primitive rs js) ((s.behind .primitive rs js).errand t r) u
        (s'.behind .primitive (rs ++ legs.map (·.request)) (js ++ legs)) a := by
  rw [errand_direct hs, completes_single] at h
  by_cases hr : ∀ k v, r ≠ .deleteIfEquals k v
  · refine ⟨_, .single hr, fun rs js => ?_⟩
    rw [errand_primitive hr]
    exact completes_single.mpr (completes_behind h .primitive rs js)
  · push Not at hr
    obtain ⟨k, v, rfl⟩ := hr
    obtain ⟨s₁, b, legs, hcall, hlegs, hprimitive⟩ := exists_legs hlatency t k v
    obtain ⟨rfl, rfl, rfl⟩ := hcall.unique h
    exact ⟨legs, hlegs, hprimitive⟩

/-- A call whose legs end is one that the store itself answers. -/
theorem completes_of_primitive (hs : s.wrap = .direct)
    (hlatency : ∀ kind, s.latency kind = .zero)
    (h : Completes turn t (s.behind .primitive rs js) ((s.behind .primitive rs js).errand t r) u w
      a) :
    ∃ s', Completes turn t s (s.errand t r) u s' a := by
  rw [errand_direct hs]
  by_cases hr : ∀ k v, r ≠ .deleteIfEquals k v
  · rw [errand_primitive hr, completes_single] at h
    have hback := completes_behind h s.wrap s.store.requests s.journal
    rw [behind_behind, behind_self] at hback
    exact ⟨_, completes_single.mpr hback⟩
  · push Not at hr
    obtain ⟨k, v, rfl⟩ := hr
    obtain ⟨s₁, b, legs, hcall, -, hprimitive⟩ := exists_legs hlatency t k v
    obtain ⟨rfl, -, rfl⟩ := (hprimitive rs js).unique h
    exact ⟨s₁, completes_single.mpr hcall⟩

/-! ## Whole sessions -/

theorem alter_behind (s : Service) (t : Instant) (x : Alteration) (wrap : Wrap)
    (rs : List Request) (js : List Finished) :
    (s.behind wrap rs js).alter t x = (s.alter t x).behind wrap rs js := by
  obtain ⟨store, _, _, _, _⟩ := s
  cases x <;> cases store <;> rfl

theorem alter_setup (s : Service) (t : Instant) (x : Alteration) :
    (s.alter t x).wrap = s.wrap ∧ (s.alter t x).latency = s.latency := by
  obtain ⟨store, _, _, _, _⟩ := s
  cases x <;> cases store <;> exact ⟨rfl, rfl⟩

/-- The errands of a session that are single calls end as they do behind another wrapper
that makes single calls of them. -/
theorem session_behind (wrap : Wrap) (h : Session t s l u s') (hs : s.wrap ≠ .primitive)
    (hwrap : wrap ≠ .primitive) (rs : List Request) (js : List Finished) :
    Session t (s.behind wrap rs js) l u
      (s'.behind wrap (rs ++ (calls l).map (·.request)) (js ++ calls l)) := by
  induction h generalizing rs js with
  | nil => simpa [calls] using Session.nil
  | @call t s x s₁ l u s' hle hcall hrest ih =>
    rw [errand_eq_single hs, completes_single] at hcall
    have hs₁ : s₁.wrap = s.wrap := by
      rw [behind_of_completes hcall]
      rfl
    have hbehind : Completes turn x.started (s.behind wrap rs js)
        ((s.behind wrap rs js).errand x.started x.request) x.finished
        (s₁.behind wrap (rs ++ [x.request]) (js ++ [x])) x.answer := by
      rw [errand_eq_single (by exact hwrap), completes_single]
      exact completes_behind hcall wrap rs js
    have hgoes := ih (by rwa [hs₁]) (rs ++ [x.request]) (js ++ [x])
    rw [List.append_assoc, List.append_assoc] at hgoes
    exact .call hle hbehind hgoes
  | alteration _ ih =>
    have hgoes := ih (by rwa [(alter_setup _ _ _).1]) rs js
    rw [← alter_behind] at hgoes
    exact .alteration hgoes

/-- What a session leaves has the calls on record and in the journal, and everything that
stands before the store is as it was. -/
theorem behind_of_session (h : Session t s l u s') (hs : s.wrap ≠ .primitive) :
    s' = s'.behind s.wrap (s.store.requests ++ (calls l).map (·.request))
      (s.journal ++ calls l) := by
  have hbehind := session_behind s.wrap h hs hs s.store.requests s.journal
  rw [behind_self] at hbehind
  exact (h.unique hbehind).2

/-- A call to the store itself takes the service on to one of the same setup. -/
theorem setup_of_completes (hs : s.wrap = .direct)
    (h : Completes turn t s (s.errand t r) u s' a) :
    s'.wrap = .direct ∧ s'.latency = s.latency := by
  rw [errand_direct hs, completes_single] at h
  obtain ⟨store, rfl, -⟩ := completes_answers (call_sound s t r) h
  exact ⟨hs, rfl⟩

theorem setup_of_session (h : Session t s l u s') (hs : s.wrap = .direct) :
    s'.wrap = .direct ∧ s'.latency = s.latency := by
  induction h with
  | nil => exact ⟨hs, rfl⟩
  | call _ hcall _ ih =>
    obtain ⟨hwrap, hlatency⟩ := setup_of_completes hs hcall
    rw [← hlatency]
    exact ih hwrap
  | @alteration t s x l u s' _ ih =>
    obtain ⟨hwrap, hlatency⟩ := alter_setup s t x
    rw [← hlatency]
    exact ih (by rwa [hwrap])

/-- A session with the store itself, and its legs behind a wrapper. -/
theorem session_primitive (h : Session t s l u s') (hs : s.wrap = .direct)
    (hlatency : ∀ kind, s.latency kind = .zero) :
    ∃ legs, List.Forall₂ Legs (calls l) legs ∧ ∀ rs js,
      Session t (s.behind .primitive rs js) l u
        (s'.behind .primitive (rs ++ legs.flatten.map (·.request)) (js ++ legs.flatten)) := by
  induction h with
  | nil => exact ⟨[], .nil, fun rs js => by simpa using Session.nil⟩
  | @call t s x s₁ l u s' hle hcall hrest ih =>
    obtain ⟨hs₁, hlatency₁⟩ := setup_of_completes hs hcall
    obtain ⟨leg, hleg, hbehind⟩ := legs_of_completes hs hlatency hcall
    obtain ⟨legs, hlegs, hgoes⟩ := ih hs₁ (by rwa [hlatency₁])
    refine ⟨leg :: legs, .cons hleg hlegs, fun rs js => .call hle (hbehind rs js) ?_⟩
    simpa using hgoes (rs ++ leg.map (·.request)) (js ++ leg)
  | alteration _ ih =>
    obtain ⟨hwrap, hlatency'⟩ := alter_setup _ _ _
    obtain ⟨legs, hlegs, hgoes⟩ := ih (by rwa [hwrap]) (by rwa [hlatency'])
    refine ⟨legs, hlegs, fun rs js => .alteration ?_⟩
    rw [alter_behind]
    exact hgoes rs js

/-- A session behind a wrapper is one with the store itself, too. -/
theorem session_of_primitive (h : Session t (s.behind .primitive rs js) l u w)
    (hs : s.wrap = .direct) (hlatency : ∀ kind, s.latency kind = .zero) :
    ∃ s', Session t s l u s' := by
  generalize hbehind : s.behind .primitive rs js = p at h
  induction h generalizing s rs js with
  | nil => exact ⟨s, .nil⟩
  | call hle hcall _ ih =>
    subst hbehind
    obtain ⟨s₁, hdirect⟩ := completes_of_primitive hs hlatency hcall
    obtain ⟨hs₁, hlatency₁⟩ := setup_of_completes hs hdirect
    obtain ⟨legs, -, hlegs⟩ := legs_of_completes hs hlatency hdirect
    obtain ⟨-, hsame, -⟩ := (hlegs rs js).unique hcall
    obtain ⟨s', hrest⟩ := ih hs₁ (by rwa [hlatency₁]) hsame
    exact ⟨s', .call hle hdirect hrest⟩
  | alteration _ ih =>
    subst hbehind
    obtain ⟨hwrap, hlatency'⟩ := alter_setup s _ _
    obtain ⟨s', hrest⟩ :=
      ih (by rwa [hwrap]) (by rwa [hlatency']) (alter_behind _ _ _ _ _ _).symm
    exact ⟨s', .alteration hrest⟩

/-! ## Calls that fail -/

/-- A call that fails has changed no live entry, and neither has one that only reads. -/
theorem alike_of_answers {now : Instant} {m m' : Memory} (h : Answers now m r a m')
    (hr : (∃ e, a = .failed e) ∨ ∃ k, r = .get k) : m'.Alike now m := by
  cases h with
  | fails e => exact .refl now m
  | serves =>
    rcases hr with ⟨e, he⟩ | ⟨k, rfl⟩
    · intro j
      rw [Memory.answer_eq_serve] at he
      rw [Memory.live?_answer]
      cases hlive : m.live? now r.key with
      | none =>
        rw [hlive] at he
        split
        next hj =>
          cases r with
          | refresh k ttl => rw [hj, hlive]; rfl
          | set | get | delete | deleteIfEquals => cases he
        next => rfl
      | some x =>
        rw [hlive] at he
        cases r with
        | deleteIfEquals k v =>
          by_cases hv : x.value = v <;> simp [Request.serve, hv] at he
        | set | get | delete | refresh => cases he
    · exact fun j => m.live?_purge now k j

/-- Nothing that a caller can find out has changed, from some instant on. -/
structure Unchanged (now : Instant) (s s' : Service) : Prop where
  face : s'.face = s.face
  contents : s'.store.contents.Alike (s.face.read now) s.store.contents

theorem Unchanged.trans {later : Instant} {s'' : Service} (h : Unchanged t s s')
    (hle : t ≤ later) (h' : Unchanged later s' s'') : Unchanged later s s'' where
  face := h'.face.trans h.face
  contents := by
    have hlater := h.contents.later (s.face.read_mono hle)
    rw [← h.face] at hlater ⊢
    exact h'.contents.trans hlater

theorem unchanged_of_completes (hc : c.Sound) (h : Completes callTurn t s c u s' a)
    (hr : (∃ e, a = .failed e) ∨ ∃ k, c.request = .get k) : Unchanged u s s' := by
  obtain ⟨store, rfl, hanswers⟩ := completes_answers hc h
  exact ⟨rfl, alike_of_answers hanswers hr⟩

/-- An errand that fails has changed nothing, whatever stands before the store. -/
theorem unchanged_of_failed {e : StoreError}
    (h : Completes turn t s (s.errand t r) u s' (.failed e)) : Unchanged u s s' := by
  unfold errand at h
  split at h
  next k v _ =>
    obtain ⟨u₁, s₁, b, hget, hrest⟩ := completes_comparing_iff.mp h
    have hread := unchanged_of_completes (call_sound s t _) hget (.inr ⟨k, rfl⟩)
    by_cases hb : b = .value (some v)
    · rw [hb, compared_found] at hrest
      obtain ⟨b', hdelete, hfailed⟩ := completes_deleting_iff.mp hrest
      have hb' : b' = .failed e := by
        cases b' with
        | failed e' => exact hfailed.symm
        | acquired | occupied | value | done | removed => cases hfailed
      exact hread.trans hdelete.le
        (unchanged_of_completes (call_sound s₁ u₁ _) hdelete (.inl ⟨e, hb'⟩))
    · rw [compared_missed hb] at hrest
      obtain ⟨rfl, rfl, -⟩ := hrest
      exact hread
  next =>
    exact unchanged_of_completes (call_sound s t _) (completes_single.mp h) (.inl ⟨e, rfl⟩)

/-! ## What a caller can tell -/

/-- What stands before a store is hidden from its callers. -/
structure Transparent (s : Service) : Prop where
  /-- The store takes every call itself, once. -/
  direct : ∀ {t l u s'}, Session t s l u s' →
    s' = s'.behind .direct (s.store.requests ++ (calls l).map (·.request)) (s.journal ++ calls l)
  /-- Traced or not, the sessions are the same, and so is what they leave. -/
  traced : ∀ {t l u w}, Session t (s.through .traced) l u w ↔
    ∃ s', Session t s l u s' ∧ w = s'.through .traced
  /-- Every session is possible behind a wrapper, with the same answers. -/
  wrapped : ∀ {t l u s'}, Session t s l u s' → ∃ w, Session t (s.through .primitive) l u w
  /-- Behind a wrapper the store takes the legs of the calls, and keeps what it would keep. -/
  primitive : ∀ {t l u w}, Session t (s.through .primitive) l u w →
    ∃ s' legs, Session t s l u s' ∧ List.Forall₂ Legs (calls l) legs ∧
      w = s'.behind .primitive (s.store.requests ++ legs.flatten.map (·.request))
        (s.journal ++ legs.flatten)
  /-- After a session, a call that fails leaves all values and all times to live. -/
  failing : ∀ {wrap t l u w}, Session t (s.through wrap) l u w →
    ∀ {t' r u' w' e}, Completes turn t' w (w.errand t' r) u' w' (.failed e) →
      ∀ {reading}, w.face.read u' ≤ reading → ∀ k,
        w'.store.contents.value? reading k = w.store.contents.value? reading k ∧
          w'.store.contents.ttl? reading k = w.store.contents.ttl? reading k
  /-- After a session, every call is answered, if a refresh does not take for ever. -/
  answering : ∀ {wrap t l u w}, Session t (s.through wrap) l u w →
    ∀ {t' : Instant} (r : Request), t'.after? w.store.refreshDelay ≠ none →
      ∃ u' w' a, Completes turn t' w (w.errand t' r) u' w' a

theorem through_eq_behind (s : Service) (wrap : Wrap) :
    s.through wrap = s.behind wrap s.store.requests s.journal := by
  rw [behind, Store.recording_requests]
  rfl

/-- The sessions with a traced store are those with the store itself. -/
theorem session_traced_iff (hs : s.wrap = .direct) :
    Session t (s.through .traced) l u w ↔ ∃ s', Session t s l u s' ∧ w = s'.through .traced := by
  constructor
  · intro h
    have hback := session_behind .direct h nofun nofun s.store.requests s.journal
    rw [through_eq_behind, behind_behind, ← hs, behind_self] at hback
    refine ⟨_, hback, ?_⟩
    exact behind_of_session h nofun
  · rintro ⟨s', h, rfl⟩
    have hne : s.wrap ≠ .primitive := by simp [hs]
    have hs' : s'.through .traced =
        s'.behind .traced (s.store.requests ++ (calls l).map (·.request)) (s.journal ++ calls l) :=
      congrArg (Service.through · .traced) (behind_of_session h hne)
    rw [through_eq_behind, hs']
    exact session_behind .traced h hne (by simp) s.store.requests s.journal

/-- What a session leaves is what one with the store itself leaves, but for the wrapper, the
record and the journal. -/
theorem session_through (hs : s.wrap = .direct) (hlatency : ∀ kind, s.latency kind = .zero)
    (h : Session t (s.through wrap) l u w) :
    ∃ s' rs js, Session t s l u s' ∧ w = s'.behind wrap rs js := by
  cases wrap with
  | direct =>
    have hself : s.through .direct = s := by
      rw [through_eq_behind, ← hs, behind_self]
    rw [hself] at h
    exact ⟨w, _, _, h, hs ▸ behind_of_session h (by simp [hs])⟩
  | traced =>
    obtain ⟨s', hdirect, rfl⟩ := (session_traced_iff hs).mp h
    exact ⟨s', _, _, hdirect, through_eq_behind s' .traced⟩
  | primitive =>
    rw [through_eq_behind] at h
    obtain ⟨s', hdirect⟩ := session_of_primitive h hs hlatency
    obtain ⟨legs, -, hlegs⟩ := session_primitive hdirect hs hlatency
    exact ⟨s', _, _, hdirect, (h.unique (hlegs _ _)).2⟩

/-- Behind every wrapper a call is answered if the store itself answers it. -/
theorem completes_through (hs : s.wrap = .direct) (hlatency : ∀ kind, s.latency kind = .zero)
    (hdelay : t.after? s.store.refreshDelay ≠ none) (r : Request) (wrap : Wrap)
    (rs : List Request) (js : List Finished) :
    ∃ u w a, Completes turn t (s.behind wrap rs js) ((s.behind wrap rs js).errand t r) u w a := by
  obtain ⟨u, s', a, hcall⟩ := exists_completes hlatency hdelay r
  by_cases hwrap : wrap = .primitive
  · have herrand : Completes turn t s (s.errand t r) u s' a := by
      rw [errand_direct hs]
      exact completes_single.mpr hcall
    obtain ⟨legs, -, hlegs⟩ := legs_of_completes hs hlatency herrand
    rw [hwrap]
    exact ⟨u, _, a, hlegs rs js⟩
  · rw [errand_eq_single (by exact hwrap)]
    exact ⟨u, _, a, completes_single.mpr (completes_behind hcall wrap rs js)⟩

theorem refreshDelay_recording (s : Store) (rs : List Request) :
    (s.recording rs).refreshDelay = s.refreshDelay := by
  cases s <;> rfl

/-- A wrapper of a store that takes no time to reach is transparent. -/
theorem transparent (s : Service) (hs : s.wrap = .direct)
    (hlatency : ∀ kind, s.latency kind = .zero) : Transparent s where
  direct h := hs ▸ behind_of_session h (by simp [hs])
  traced := session_traced_iff hs
  wrapped h := by
    obtain ⟨legs, -, hlegs⟩ := session_primitive h hs hlatency
    rw [through_eq_behind]
    exact ⟨_, hlegs _ _⟩
  primitive h := by
    rw [through_eq_behind] at h
    obtain ⟨s', hdirect⟩ := session_of_primitive h hs hlatency
    obtain ⟨legs, hforall, hlegs⟩ := session_primitive hdirect hs hlatency
    exact ⟨s', legs, hdirect, hforall, (h.unique (hlegs _ _)).2⟩
  failing _ := by
    intro t' r u' w' e hfails reading hle k
    have hsame := (unchanged_of_failed hfails).contents.later hle
    exact ⟨hsame.value? k, hsame.ttl? k⟩
  answering h := by
    intro t' r hdelay
    obtain ⟨s', rs, js, hdirect, rfl⟩ := session_through hs hlatency h
    obtain ⟨hs', hlatency'⟩ := setup_of_session hdirect hs
    rw [behind, refreshDelay_recording] at hdelay
    exact completes_through hs' (by rwa [hlatency']) hdelay r _ rs js

/-- A key is set, an outage comes and goes, two comparisons are made, and the key is set once
more and runs out. -/
def outage : List Incident :=
  let answered (r : Request) (a : Answer) : Incident := .call ⟨r, .epoch, .epoch, a⟩
  [answered (.set "k" "a" (.ofNanos 1)) .acquired,
    .alteration (.unavailable true),
    answered (.deleteIfEquals "k" "a") (.failed (.connection "fake store unavailable")),
    .alteration (.unavailable false),
    answered (.deleteIfEquals "k" "b") (.removed false),
    answered (.deleteIfEquals "k" "a") (.removed true),
    answered (.set "k" "a" (.ofNanos 1)) .acquired,
    .alteration (.clock { nanos := 2 }),
    answered (.deleteIfEquals "k" "a") (.removed false)]

/-- A store behind a wrapper goes through an outage as the store itself does. -/
theorem transparent_outage :
    let s : Service := { store := .faulty {}, face := .manual .epoch }
    (s.wrap = .direct ∧ ∀ kind, s.latency kind = .zero) ∧ Transparent s ∧
      ∃ w, Session .epoch (s.through .primitive) outage .epoch w := by
  intro s
  have htransparent : Transparent s := transparent s rfl fun _ => rfl
  have hle : Instant.epoch ≤ Instant.epoch := Nat.le_refl _
  have hsession : Session .epoch s outage .epoch _ :=
    .call hle (.ends rfl) <| .alteration <| .call hle (.ends rfl) <| .alteration <|
      .call hle (.ends rfl) <| .call hle (.ends rfl) <| .call hle (.ends rfl) <|
      .alteration <| .call hle (.ends rfl) .nil
  exact ⟨⟨rfl, fun _ => rfl⟩, htransparent, htransparent.wrapped hsession⟩

end Service

end Leasehold
