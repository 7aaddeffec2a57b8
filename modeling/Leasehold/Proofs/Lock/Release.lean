import Leasehold.Proofs.Lock.Errands
import Leasehold.Proofs.Lock.Leaves
import Leasehold.Proofs.Simulation.Chronicle
import Leasehold.Proofs.Simulation.History
import Leasehold.Proofs.Store.Locality

/-!
# Releasing a lock

A release has two turns.  On the first one it takes the renewal of the key away and
cancels it, if it is for the owner (`ReleaseBegins`).  On the second one the store
deletes the key, if it is reachable and the key has the owner's token (`ReleaseEnds`).
Between the two anything may happen, but a renewal that was stopped begins no more
refreshes (`ReleaseBegins.refreshing`).

As long as nobody takes the key, the same release again finds nothing to do
(`Released.idle`).  `release_exact` puts everything together, for lock managers that
share a store with others who write to it as they like.
-/

namespace Leasehold.Lock

open Simulation

variable {s₀ s s' s₁ s₂ s₃ : Locks} {c : Choice Process} {n m : Nat} {k o : String}

/-! ## The beginning -/

/-- What the first turn of a release changes. -/
structure ReleaseBegins (s : Locks) (m : Nat) (k o : String) (s' : Locks) : Prop where
  /-- The store is not asked yet. -/
  service : s'.world.service = s.world.service
  /-- The entry of the key goes if it is for the owner, and no other one does. -/
  registered_iff : ∀ i key e, s'.world.registered? i key = some e ↔
    s.world.registered? i key = some e ∧ ¬ (i = m ∧ key = k ∧ e.owner = o)
  /-- The token of that entry is cancelled, and no other one is. -/
  cancelled_iff : ∀ t, s'.world.tokens.isCancelled t = true ↔
    s.world.tokens.isCancelled t = true ∨
      ∃ e, s.world.registered? m k = some e ∧ e.owner = o ∧ e.token = t

/-- The system after the first turn of a release. -/
theorem eq_of_release (hn : s.process? n = some (.action (.release m k o)))
    (hstep : Step turn s (.turn n) s') :
    s' = s.advance n (s.world.stop m k o)
      (some (.releasing k o (s.world.service.errand s.now (.deleteIfEquals k o)))) [] :=
  hstep.eq_of_moves hn rfl

theorem Stopped.registered_iff {w w' : World} (h : Stopped w m k o w') {i : Nat} {key : String}
    {e : Renewal} :
    w'.registered? i key = some e ↔
      w.registered? i key = some e ∧ ¬ (i = m ∧ key = k ∧ e.owner = o) := by
  by_cases hsame : i = m ∧ key = k
  · obtain ⟨rfl, rfl⟩ := hsame
    rw [h.registered, Option.filter_eq_some_iff]
    simp
  · rw [h.others i key (Decidable.not_and_iff_or_not.mp hsame)]
    constructor
    · intro he
      exact ⟨he, fun ⟨hi, hkey, _⟩ => hsame ⟨hi, hkey⟩⟩
    · exact And.left

/-- Without an entry for the owner there is nothing to stop. -/
theorem World.stop_eq_self {w : World} (h : ∀ e, w.registered? m k = some e → e.owner ≠ o) :
    w.stop m k o = w := by
  have hunregister : (w.manager m).unregister k o = (none, w.manager m) := by
    cases hfound : (w.manager m).renewals.find? k with
    | none => simp only [Manager.unregister, hfound]
    | some e => simp only [Manager.unregister, hfound, if_neg (h e hfound)]
  have hmanagers : w.managers.set m (w.manager m) = w.managers := by
    by_cases hm : m < w.managers.length
    · have hself : w.manager m = w.managers[m] := by simp [World.manager, hm]
      rw [hself, List.set_getElem_self]
    · rw [List.set_eq_of_length_le (Nat.le_of_not_lt hm)]
  simp only [World.stop, World.stopTokens, hunregister, World.setManager, hmanagers]

theorem isCancelled_stop {K : Nat → Prop} (h : Secret s K) (hs : Placed s)
    (hentry : ∀ e, s.world.registered? m k = some e →
      ∃ j r stage, s.process? j = some (.renewing r stage) ∧ r.token = e.token) (t : Nat) :
    (s.world.stop m k o).tokens.isCancelled t = true ↔
      s.world.tokens.isCancelled t = true ∨
        ∃ e, s.world.registered? m k = some e ∧ e.owner = o ∧ e.token = t := by
  show (s.world.stopTokens m k o).isCancelled t = true ↔ _
  cases hfound : (s.world.manager m).renewals.find? k with
  | none =>
    have hnone : s.world.registered? m k = none := hfound
    simp [World.stopTokens, Manager.unregister, hfound, hnone]
  | some e =>
    have hsome : s.world.registered? m k = some e := hfound
    by_cases howner : e.owner = o
    · obtain ⟨j, r, stage, hj, htoken⟩ := hentry e hsome
      have hcancel := h.isCancelled_cancel_iff hs hj (t := t)
      have hstop : s.world.stopTokens m k o = s.world.tokens.cancel e.token := by
        simp only [World.stopTokens, Manager.unregister, hfound, if_pos howner]
      rw [htoken] at hcancel
      rw [hstop, hcancel]
      refine or_congr_right ⟨fun ht => ⟨e, hsome, howner, ht.symm⟩, ?_⟩
      rintro ⟨e', he', -, rfl⟩
      rw [Option.some.inj (hsome.symm.trans he')]
    · simp [World.stopTokens, Manager.unregister, hfound, hsome, howner]

/-! ## Renewals that were stopped -/

/-- A renewal begins a refresh only if it is not cancelled. -/
theorem renewalTurn_next (now : Instant) (w : World) (r : Renewing) (stage : RenewalStage) :
    (renewalTurn now w r stage).Next fun q => ∀ cycle next? e,
      q = .renewing r (.refreshing cycle next? e) →
        (∃ e₀, stage = .refreshing cycle next? e₀) ∨ w.tokens.isCancelled r.token = false := by
  cases stage with
  | starting =>
    simp only [renewalTurn]
    split
    · trivial
    · rintro _ _ _ ⟨⟩
  | waiting cycle tick? =>
    simp only [renewalTurn]
    split
    · trivial
    split
    · trivial
    next huncancelled =>
      split
      · trivial
      split
      · exact fun _ _ _ _ => .inr (Bool.eq_false_iff.mpr huncancelled)
      · trivial
  | refreshing cycle next? e =>
    simp only [renewalTurn]
    cases w.service.turn now e with
    | waits due? => trivial
    | moves u e' records =>
      rintro _ _ _ ⟨⟩
      exact .inl ⟨e, rfl⟩
    | ends u a started records => rintro _ _ _ ⟨⟩

/-- A refresh of a cancelled renewal was under way before. -/
theorem Placed.refreshing_before (hs : Placed s) (hstep : Step turn s c s')
    (hrule : Addressed s c s') {j cycle : Nat} {r : Renewing} {next? : Option Instant} {e : Errand}
    (hcancelled : s.world.tokens.isCancelled r.token = true)
    (h : s'.process? j = some (.renewing r (.refreshing cycle next? e))) :
    ∃ e₀, s.process? j = some (.renewing r (.refreshing cycle next? e₀)) := by
  cases hstep with
  | @moves i p w' q records hp hturn =>
    obtain ⟨-, hold⟩ | ⟨rfl, hnext⟩ | ⟨k, -, hnew⟩ := System.process?_advance_cases h
    · exact ⟨e, hold⟩
    · cases hnext
      have htouch := turn_touches s.now (hs _ _ hp)
      rw [hturn] at htouch
      obtain ⟨stage, rfl⟩ := Process.eq_renewing (htouch.renewal?_next rfl).symm
      have hgoes := renewalTurn_next s.now s.world r stage
      rw [show renewalTurn s.now s.world r stage = _ from hturn] at hgoes
      obtain ⟨e₀, rfl⟩ | huncancelled := hgoes cycle next? e rfl
      · exact ⟨e₀, hp⟩
      · cases hcancelled.symm.trans huncancelled
    · cases hnew
  | @ends i p w' result started records hp hturn =>
    obtain ⟨-, hold⟩ | ⟨-, hnext⟩ | ⟨k, -, hnew⟩ := System.process?_advance_cases h
    · exact ⟨e, hold⟩
    · cases hnext
    · have htouch := turn_touches s.now (hs _ _ hp)
      rw [hturn] at htouch
      obtain ⟨l, q, -, rfl⟩ := htouch.of_started (List.mem_of_getElem? hnew)
      cases List.mem_singleton.mp (List.mem_of_getElem? hnew)
  | start p =>
    obtain hold | ⟨-, rfl⟩ := System.process?_add_cases h
    · exact ⟨e, hold⟩
    · cases hrule
  | pass => exact ⟨e, h⟩

/-- A renewal that is cancelled begins no more refreshes.  One that was under way may
end. -/
theorem Registered.refreshing_of_run (hs : Registered s) (hrun : Run turn Addressed s s')
    {j cycle : Nat} {r : Renewing} {next? : Option Instant} {e : Errand}
    (hcancelled : s.world.tokens.isCancelled r.token = true)
    (h : s'.process? j = some (.renewing r (.refreshing cycle next? e))) :
    ∃ e₀, s.process? j = some (.renewing r (.refreshing cycle next? e₀)) := by
  have hstill : ∀ {t}, Run turn Addressed s t → t.world.tokens.isCancelled r.token = true := by
    intro t hrun
    refine (hrun.preserves (I := fun t => Registered t ∧ t.world.tokens.isCancelled r.token = true)
      (fun ⟨ht, hc⟩ hstep hrule => ?_) ⟨hs, hcancelled⟩).2
    exact ⟨ht.step hstep hrule, (ht.placed.grows hstep).tokens.cancelled _ hc⟩
  induction hrun generalizing e with
  | refl => exact ⟨e, h⟩
  | tail hrun hstep hrule ih =>
    obtain ⟨e₁, h₁⟩ := (hs.run hrun).placed.refreshing_before hstep hrule (hstill hrun) h
    exact ih h₁

/-! ## The end -/

/-- What the second turn of a release changes. -/
structure ReleaseEnds (s : Locks) (n : Nat) (k o : String) (s' : Locks) : Prop where
  /-- The release is over. -/
  ended : s'.process? n = none
  /-- The lock managers are not asked any more. -/
  managers : s'.world.managers = s.world.managers
  tokens : s'.world.tokens = s.world.tokens
  /-- The key goes if the store is reachable and the key has the token of the owner, and no
  other live entry changes. -/
  live? : ∀ j, s'.world.service.live? s'.now j =
    if s.world.service.store.isAvailable = true ∧ j = k ∧
      s.world.service.value? s.now k = some o then none
    else s.world.service.live? s.now j
  /-- Entries of other keys do not change even if they have expired. -/
  stored? : ∀ j, j ≠ k → s'.world.service.stored? j = s.world.service.stored? j

/-- What an answered comparison leaves of the entries. -/
theorem live?_of_compared {now : Instant} {sv : Service} {call : Call} {store : Store} {a : Answer}
    (hrequest : call.request = .deleteIfEquals k o)
    (h : sv.store.receive (sv.face.read now) call.request = (.answered a, store)) (j : String) :
    (({ sv with store } : Service).finish now call a).live? now j =
      if sv.store.isAvailable = true ∧ j = k ∧ sv.value? now k = some o then none
      else sv.live? now j := by
  rw [hrequest] at h
  have hentry : (({ sv with store } : Service).finish now call a).live? now j =
      store.contents.live? (sv.face.read now) j := rfl
  have hvalue : sv.value? now k = (sv.live? now k).map (·.value) := sv.value?_eq now k
  have hself : (sv.live? now k).filter (·.liveAt (sv.face.read now)) = sv.live? now k :=
    (sv.store.contents.live?_later (Nat.le_refl _) k).symm
  rw [hentry]
  obtain ⟨havailable, -, hcontents⟩ | ⟨hunavailable, -, hcontents⟩ :=
    Store.receive_plain (r := .deleteIfEquals k o) (by simp) h
  · rw [hcontents, Memory.live?_answer]
    by_cases hj : j = k
    · subst hj
      rw [if_pos (by rfl), hvalue]
      show (Request.serve _ (sv.live? now j) (.deleteIfEquals j o)).2.filter _ = _
      cases hlive : sv.live? now j with
      | none => simp [Request.serve]
      | some e =>
        by_cases howner : e.value = o
        · simp [Request.serve, havailable, howner]
        · rw [hlive] at hself
          simp [Request.serve, howner, hself]
    · rw [if_neg (by simpa [Request.key] using hj), if_neg (by simp [hj])]
      rfl
  · rw [hcontents, if_neg (by simp [hunavailable])]
    rfl

/-- The second turn of a release. -/
theorem release_ends {call : Call} (hn : s.process? n = some (.releasing k o (.single call)))
    (hsound : call.Sound) (hrequest : call.request = .deleteIfEquals k o)
    (hstep : Step turn s (.turn n) s') : ReleaseEnds s n k o s' := by
  have hturn : turn s.now s.world (.releasing k o (.single call)) = _ := turn_call rfl
  obtain ⟨a, store, hreceive, rfl⟩ : ∃ a store,
      s.world.service.store.receive (s.world.service.face.read s.now) call.request =
        (.answered a, store) ∧
      s' = s.advance n (s.world.withService
        (({ s.world.service with store } : Service).finish s.now call a)) none [] := by
    obtain ⟨due?, hwaits⟩ | ⟨a, store, hreceive, hends⟩ :=
      Service.callTurn_plain hsound (by simp [hrequest])
    · rw [hwaits] at hturn
      exact absurd hturn (hstep.not_waits hn)
    · rw [hends] at hturn
      exact ⟨a, store, hreceive, hstep.eq_of_ends hn hturn⟩
  refine ⟨?_, rfl, rfl, fun j => live?_of_compared hrequest hreceive j, fun j hj => ?_⟩
  · exact System.process?_advance_self (System.lt_length_of_process? hn) _ _ _
  · obtain ⟨hanswers, hkind⟩ := Store.receive_answered hreceive
    exact (Service.served_finish hanswers hkind).others j (by rwa [hrequest])

/-! ## Releases that go on -/

/-- The process of a release after its first turn. -/
theorem process?_of_release (hs : Apt s) (hn : s.process? n = some (.action (.release m k o)))
    (hstep : Step turn s (.turn n) s') :
    s'.process? n = some (.releasing k o
      (.single (s.world.service.call s.now (.deleteIfEquals k o)))) := by
  rw [eq_of_release hn hstep, System.process?_advance_self (System.lt_length_of_process? hn),
    Service.errand_eq_single hs.wrap]

/-- A release that is under way goes on until it is over. -/
theorem releasing_of_run {rule : Rule World Process} {call : Call}
    (hn : s.process? n = some (.releasing k o (.single call))) (hsound : call.Sound)
    (hrequest : call.request = .deleteIfEquals k o) (hrun : Run turn rule s s') :
    s'.process? n = none ∨ s'.process? n = some (.releasing k o (.single call)) := by
  have hlt := System.lt_length_of_process? hn
  induction hrun with
  | refl => exact .inr hn
  | @tail t c t' hrun hstep hrule ih =>
    have hlt := Nat.lt_of_lt_of_le hlt hrun.length_le
    obtain hover | hgoes := ih
    · exact .inl (hstep.stays_over hlt hover)
    · by_cases hc : c.IsTurn n
      · cases c with
        | turn i =>
          obtain rfl : i = n := hc
          exact .inl (release_ends hgoes hsound hrequest hstep).ended
        | start | pass => cases hc
      · exact .inr ((hstep.process?_of_not_turn hc hlt).trans hgoes)

/-- The turn of a release that is under way ends it, however long it has been so. -/
theorem release_ends_of_run {rule : Rule World Process} {call : Call}
    (hn : s.process? n = some (.releasing k o (.single call))) (hsound : call.Sound)
    (hrequest : call.request = .deleteIfEquals k o) (hrun : Run turn rule s s₂)
    (hstep : Step turn s₂ (.turn n) s₃) : ReleaseEnds s₂ n k o s₃ := by
  obtain hover | hgoes := releasing_of_run hn hsound hrequest hrun
  · obtain ⟨p, hp⟩ := hstep.exists_process?
    cases hover.symm.trans hp
  · exact release_ends hgoes hsound hrequest hstep

/-- A release is over when its call has arrived and it has had its turn. -/
theorem release_returns {call : Call} {due : Instant}
    (hn : s.process? n = some (.releasing k o (.single call)))
    (hstage : call.stage = .approaching (some due)) (hdue : due ≤ s.now)
    (hrequest : call.request = .deleteIfEquals k o) :
    ∃ s', Step turn s (.turn n) s' ∧ s'.process? n = none := by
  obtain ⟨a, store, -, hends⟩ := Service.callTurn_arrives (s := s.world.service) hstage hdue
    (by simp [hrequest])
  have hturn : turn s.now s.world (.releasing k o (.single call)) = _ := turn_call rfl
  rw [hends] at hturn
  exact ⟨_, .ends hn hturn,
    System.process?_advance_self (System.lt_length_of_process? hn) _ _ _⟩

/-! ## Releasing twice -/

/-- No renewal of a key is registered for the owner. -/
structure Unregistered (s : Locks) (m : Nat) (k o : String) : Prop where
  apt : Apt s
  registered : Registered s
  entry : ∀ e, s.world.registered? m k = some e → e.owner ≠ o

/-- The owner does not have the key either. -/
structure Released (s : Locks) (m : Nat) (k o : String) : Prop extends Unregistered s m k o where
  value? : s.world.service.value? s.now k ≠ some o

theorem Unregistered.step (h : Unregistered s m k o) (hstep : Step turn s c s')
    (hrule : Untaken k s c s') : Unregistered s' m k o where
  apt := h.apt.step hstep hrule.1
  registered := h.registered.step hstep hrule.1
  entry e he := h.entry e (h.apt.registered_step h.registered.placed hstep hrule he)

/-- What was released stays so as long as nobody takes the key. -/
theorem Released.step (h : Released s m k o) (hstep : Step turn s c s')
    (hrule : Untaken k s c s') : Released s' m k o where
  toUnregistered := h.toUnregistered.step hstep hrule
  value? hv := h.value? (h.apt.value?_step hstep hrule hv)

theorem Unregistered.run (h : Unregistered s m k o) (hrun : Run turn (Untaken k) s s') :
    Unregistered s' m k o :=
  hrun.preserves (I := fun t => Unregistered t m k o) (fun h hstep hrule => h.step hstep hrule) h

theorem Released.run (h : Released s m k o) (hrun : Run turn (Untaken k) s s') :
    Released s' m k o :=
  hrun.preserves (I := fun t => Released t m k o) (fun h hstep hrule => h.step hstep hrule) h

/-- After a release from a store that is reachable, the owner does not have the key. -/
theorem ReleaseEnds.released (h : ReleaseEnds s n k o s') (hs : Unregistered s m k o)
    (hstep : Step turn s (.turn n) s') (havailable : s.world.service.store.isAvailable = true) :
    Released s' m k o where
  apt := hs.apt.step hstep trivial
  registered := hs.registered.step hstep trivial
  entry e he := by
    rw [World.registered?_of_managers_eq h.managers] at he
    exact hs.entry e he
  value? hv := by
    rw [Service.value?_eq, h.live? k] at hv
    by_cases hold : s.world.service.value? s.now k = some o
    · rw [if_pos ⟨havailable, rfl, hold⟩] at hv
      cases hv
    · rw [if_neg fun hcond => hold hcond.2.2, ← Service.value?_eq] at hv
      exact hold hv

/-- What a release does that finds nothing to release. -/
structure ReleaseIdle (s : Locks) (n : Nat) (k : String) (s' : Locks) : Prop where
  /-- Its first turn changes nothing. -/
  begins : s'.world = s.world
  /-- Its second turn changes no registry, no token and no live entry, as long as nobody has
  taken the key. -/
  ends : ∀ s₂ s₃, Run turn (Untaken k) s' s₂ → Step turn s₂ (.turn n) s₃ →
    s₃.world.managers = s₂.world.managers ∧ s₃.world.tokens = s₂.world.tokens ∧
      ∀ j, s₃.world.service.live? s₃.now j = s₂.world.service.live? s₂.now j

theorem Released.idle (h : Released s m k o) (hn : s.process? n = some (.action (.release m k o)))
    (hstep : Step turn s (.turn n) s') : ReleaseIdle s n k s' := by
  have huntaken : Untaken k s (.turn n) s' := by
    refine ⟨trivial, fun p hp hobtains => ?_⟩
    cases hn.symm.trans hp
    cases hobtains.1
  have hreleasing := process?_of_release h.apt hn hstep
  refine ⟨?_, fun s₂ s₃ hrun hstep₂ => ?_⟩
  · rw [eq_of_release hn hstep, System.world_advance, World.stop_eq_self h.entry]
  · have h₂ := (h.step hstep huntaken).run hrun
    have hends := release_ends_of_run hreleasing (Service.call_sound _ _ _) rfl hrun hstep₂
    refine ⟨hends.managers, hends.tokens, fun j => ?_⟩
    rw [hends.live? j, if_neg fun hcond => h₂.value? hcond.2.2]

/-! ## A release -/

/-- What a release does that has its first turn between `s` and `s₁`, whatever else is done
to the locks and to the store. -/
structure ReleaseExact (s₀ s : Locks) (n m : Nat) (k o : String) (s₁ : Locks) : Prop where
  /-- It stops the renewal of the key if that is for the owner, and no other one. -/
  begins : ReleaseBegins s m k o s₁
  /-- The renewal that it stops begins no more refreshes.  One that is under way may end. -/
  stops : ∀ e, s.world.registered? m k = some e → e.owner = o →
    ∃ j l r stage, StartedFor Addressed s₀ s j l r ∧ s.process? j = some (.renewing r stage) ∧
      l.owner = o ∧ r.manager = m ∧ r.key = k ∧ r.token = e.token ∧ r.generation = e.generation ∧
      ∀ s₂, Run turn Addressed s₁ s₂ → ∀ cycle next? errand,
        s₂.process? j = some (.renewing r (.refreshing cycle next? errand)) →
          ∃ errand₀, stage = .refreshing cycle next? errand₀
  /-- It deletes the key if it is the owner's, in one step, and touches no other entry. -/
  ends : ∀ s₂ s₃, Run turn Addressed s₁ s₂ → Step turn s₂ (.turn n) s₃ → ReleaseEnds s₂ n k o s₃
  /-- It comes to its end once its call has reached the store. -/
  returns : ∀ due, s.now.after? (s.world.service.latency .deleteIfEquals) = some due →
    ∀ s₂, Run turn Addressed s₁ s₂ → due ≤ s₂.now →
      s₂.process? n = none ∨ ∃ s₃, Step turn s₂ (.turn n) s₃ ∧ s₃.process? n = none
  /-- If the store was reachable, the same release again changes nothing as long as nobody
  takes the key. -/
  once : ∀ s₂ s₃, Run turn (Untaken k) s₁ s₂ → Step turn s₂ (.turn n) s₃ →
    s₂.world.service.store.isAvailable = true →
    ∀ n' s₄ s₅, Run turn (Untaken k) s₃ s₄ →
      s₄.process? n' = some (.action (.release m k o)) → Step turn s₄ (.turn n') s₅ →
      ReleaseIdle s₄ n' k s₅

/-- Every entry belongs to a renewal that was started for a lease of its owner. -/
theorem Blank.renewal_of_registered (h : Blank s₀) (hrun : Run turn Addressed s₀ s) {e : Renewal}
    (he : s.world.registered? m k = some e) :
    ∃ j l r stage, StartedFor Addressed s₀ s j l r ∧ s.process? j = some (.renewing r stage) ∧
      r.manager = m ∧ r.key = k ∧ e = ⟨l.owner, r.token, r.generation⟩ := by
  obtain ⟨j, l, r, stage, hstarted, hj, hmanager, hkey, hentry⟩ := (registered_iff h hrun).mp he
  exact ⟨j, l, r, stage, hstarted.mono fun hrule => hrule.1, hj, hmanager, hkey, hentry⟩

/-- The first turn of a release, where the tokens of renewals are secret. -/
theorem Blank.release_begins (hblank : Blank s₀) (hnames : s₀.world.names = ∅)
    (htokens : s₀.world.tokens = {}) (hrun : Run turn Addressed s₀ s)
    (hn : s.process? n = some (.action (.release m k o))) (hstep : Step turn s (.turn n) s₁) :
    ReleaseBegins s m k o s₁ := by
  have hs : Registered s := hblank.registered_of_run hrun
  obtain ⟨K, hsecret⟩ :=
    (hblank.secret hnames htokens).run ⟨hblank.placed, hblank.registrySound⟩ hrun
  refine ⟨?_, fun i key e => (hs.placed.stopped hn hstep).registered_iff, fun t => ?_⟩
  · rw [eq_of_release hn hstep]
    rfl
  · rw [eq_of_release hn hstep, System.world_advance]
    refine isCancelled_stop hsecret hs.placed (fun e he => ?_) t
    obtain ⟨j, l, r, stage, -, hj, -, -, rfl⟩ := hblank.renewal_of_registered hrun he
    exact ⟨j, r, stage, hj, rfl⟩

/-- A renewal that a release has stopped begins no more refreshes. -/
theorem ReleaseBegins.refreshing (h : ReleaseBegins s m k o s₁) (hs₁ : Registered s₁)
    (hn : s.process? n = some (.action (.release m k o))) (hstep : Step turn s (.turn n) s₁)
    {e : Renewal} (he : s.world.registered? m k = some e) (howner : e.owner = o) {j cycle : Nat}
    {r : Renewing} {stage : RenewalStage} (hj : s.process? j = some (.renewing r stage))
    (htoken : e.token = r.token) (hrun : Run turn Addressed s₁ s₂) {next? : Option Instant}
    {errand : Errand} (hj₂ : s₂.process? j = some (.renewing r (.refreshing cycle next? errand))) :
    ∃ errand₀, stage = .refreshing cycle next? errand₀ := by
  have hcancelled : s₁.world.tokens.isCancelled r.token = true :=
    (h.cancelled_iff _).mpr (.inr ⟨e, he, howner, htoken⟩)
  obtain ⟨errand₀, hj₁⟩ := hs₁.refreshing_of_run hrun hcancelled hj₂
  have hne : ¬ (Choice.turn n : Choice Process).IsTurn j := by
    rintro rfl
    cases hn.symm.trans hj
  rw [hstep.process?_of_not_turn hne (System.lt_length_of_process? hj), hj] at hj₁
  cases hj₁
  exact ⟨errand₀, rfl⟩

/-- A release of a key for an owner, in a system that is reached from one in which nothing
was done yet, whoever acquires and releases what, and whatever is done to the store. -/
theorem release_exact (hblank : Blank s₀) (hnames : s₀.world.names = ∅)
    (htokens : s₀.world.tokens = {}) (hwrap : s₀.world.service.wrap ≠ .primitive)
    (hrun : Run turn Addressed s₀ s) (hn : s.process? n = some (.action (.release m k o)))
    (hstep : Step turn s (.turn n) s₁) : ReleaseExact s₀ s n m k o s₁ := by
  have hs₁ : Registered s₁ := (hblank.registered_of_run hrun).step hstep trivial
  have hapt : Apt s := (hblank.apt hwrap).run hrun
  have hbegins := hblank.release_begins hnames htokens hrun hn hstep
  have hreleasing := process?_of_release hapt hn hstep
  have hends : ∀ {rule : Rule World Process} {s₂ s₃}, Run turn rule s₁ s₂ →
      Step turn s₂ (.turn n) s₃ → ReleaseEnds s₂ n k o s₃ :=
    release_ends_of_run hreleasing (Service.call_sound _ _ _) rfl
  refine ⟨hbegins, ?_, fun s₂ s₃ => hends, ?_, ?_⟩
  · intro e he howner
    obtain ⟨j, l, r, stage, hstarted, hj, hmanager, hkey, rfl⟩ :=
      hblank.renewal_of_registered hrun he
    exact ⟨j, l, r, stage, hstarted, hj, howner, hmanager, hkey, rfl, rfl,
      fun s₂ hrun cycle next? errand => hbegins.refreshing hs₁ hn hstep he howner hj rfl hrun⟩
  · intro due hdue s₂ hrun hle
    obtain hover | hgoes := releasing_of_run hreleasing (Service.call_sound _ _ _) rfl hrun
    · exact .inl hover
    · exact .inr (release_returns hgoes (congrArg Stage.approaching hdue) hle rfl)
  · intro s₂ s₃ hrun hstep₂ havailable n' s₄ s₅ hrun' hn' hstep₄
    have hunregistered : Unregistered s₁ m k o := {
      apt := hapt.step hstep trivial
      registered := hs₁
      entry := fun e he howner =>
        ((hbegins.registered_iff m k e).mp he).2 ⟨rfl, rfl, howner⟩ }
    have hreleased := (hends hrun hstep₂).released (hunregistered.run hrun) hstep₂ havailable
    exact (hreleased.run hrun').idle hn' hstep₄

/-- The holder of a lock releases it while its renewal waits, and the key is gone. -/
theorem release_exact_held :
    ∃ s s₁, Run turn Addressed single s ∧ s.process? 2 = some (.action (.release 0 "k" "a")) ∧
      s.world.registered? 0 "k" = some ⟨"a", 1, 0⟩ ∧ Step turn s (.turn 2) s₁ ∧
      ReleaseExact single s 2 0 "k" "a" s₁ ∧ s₁.world.tokens.isCancelled 1 = true ∧
      ∀ s₂, Step turn s₁ (.turn 2) s₂ → s₂.world.service.live? s₂.now "k" = none := by
  obtain ⟨s, s₁, hrun, hn, hregistered, hvalue, hstep⟩ :
      ∃ s s₁, Run turn Addressed single s ∧ s.process? 2 = some (.action (.release 0 "k" "a")) ∧
        s.world.registered? 0 "k" = some ⟨"a", 1, 0⟩ ∧
        (s₁.world.service.store.isAvailable = true ∧
          s₁.world.service.value? s₁.now "k" = some "a") ∧ Step turn s (.turn 2) s₁ :=
    ⟨_, _,
      Run.of_follow? [.start (.action (.tryAcquire 0 "k" "a" (.ofSeconds 1) "")), .turn 0, .turn 0,
        .turn 1, .start (.action (.release 0 "k" "a"))] rfl,
      rfl, rfl, ⟨rfl, rfl⟩, .of_step? rfl⟩
  have hexact := release_exact fresh_single.blank rfl rfl fresh_single.wrap hrun hn hstep
  have hcancelled := (hexact.begins.cancelled_iff 1).mpr (.inr ⟨_, hregistered, rfl, rfl⟩)
  refine ⟨s, s₁, hrun, hn, hregistered, hstep, hexact, hcancelled, fun s₂ hstep₂ => ?_⟩
  rw [(hexact.ends s₁ s₂ .refl hstep₂).live? "k", if_pos ⟨hvalue.1, rfl, hvalue.2⟩]

end Leasehold.Lock
