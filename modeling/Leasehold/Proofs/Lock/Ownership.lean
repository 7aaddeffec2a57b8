import Leasehold.Proofs.Lock.Renewals

/-!
# A renewal acts on its own lease only

The store does not check whose refresh it serves, so it is up to the lock
managers to stop a renewal in time.  If there is one lock manager and calls take
no time, they do: while a renewal is not cancelled, the entry of its key is the
one that its own acquisition has written, or it has run out and no other has
taken its place.  This is `Owned`; it is kept by every step, since whatever
could break it, a win of the key by somebody else or a release by the owner,
cancels the renewal first.

`refresh_own_entry` is what follows for the refreshes of a renewal.
-/

namespace Leasehold.Lock

open Simulation

/-- Whether an answered call has given a key a new entry or taken its entry
away. -/
def Replaces (k : String) (f : Finished) : Prop :=
  match f.request, f.answer with
  | .set key .., .acquired => key = k
  | .deleteIfEquals key _, .removed true => key = k
  | .delete key, .done => key = k
  | _, _ => False

theorem Replaces.key_eq {k : String} {f : Finished} (h : Replaces k f) : f.request.key = k := by
  obtain ⟨request, started, finished, answer⟩ := f
  unfold Replaces at h
  split at h
  · simp_all [Request.key]
  · simp_all [Request.key]
  · simp_all [Request.key]
  · cases h

theorem not_replaces_of_failed {k : String} {request : Request} {started finished : Instant}
    {e : StoreError} : ¬ Replaces k ⟨request, started, finished, .failed e⟩ := by
  cases request <;> exact id

/-- Whether a deadline is no later than another one; a missing deadline never
comes. -/
def NotAfter (d? d'? : Option Instant) : Prop := ∀ t', d'? = some t' → ∃ t, d? = some t ∧ t ≤ t'

/-- The renewal is registered for the lease, the key has the entry of the lease
or none, and no release of the lease is under way.  A refresh at the first tick
or later does not move the deadline back.  `calls` are those that had been
answered when the lease was acquired. -/
structure Owned (calls : List Finished) (l : Lease) (r : Renewing) (s : Locks) : Prop where
  registered : s.world.registered? r.manager r.key = some ⟨l.owner, r.token, r.generation⟩
  value : ∀ e, s.world.service.stored? l.key = some e → e.value = l.owner
  deadline : ∀ e, s.world.service.stored? l.key = some e → ∀ t, s.now ≤ t →
    r.acquiredAt.nanos + r.interval.nanos ≤ t.nanos → NotAfter e.deadline? (t.after? r.interval)
  journal : ∃ since, s.world.service.journal = calls ++ since ∧ ∀ f ∈ since, ¬ Replaces l.key f
  unreleased : ∀ i e, s.process? i ≠ some (.releasing l.key l.owner e)

/-- The renewal of a number goes on and is not cancelled. -/
def Renews (s : Locks) (own : Nat) (r : Renewing) : Prop :=
  (∃ stage, s.process? own = some (.renewing r stage)) ∧
    s.world.tokens.isCancelled r.token = false

variable {s s' : Locks} {c : Choice Process} {l : Lease} {r : Renewing} {own : Nat}
  {calls : List Finished}

theorem notAfter_after? {t u : Instant} {d d' : Duration}
    (h : t.nanos + d.nanos ≤ u.nanos + d'.nanos) : NotAfter (t.after? d) (u.after? d') := by
  intro t' ht'
  have hnanos := Instant.nanos_of_after?_eq_some ht'
  have hlt := t'.nanos_lt
  have hlimit : t.nanos + d.nanos < 9223372036854775808000000000 := by omega
  refine ⟨_, Instant.after?_of_lt hlimit, ?_⟩
  show t.nanos + d.nanos ≤ t'.nanos
  omega

/-! ## What keeps the entry of a lease -/

/-- What an answer makes of an entry that has the value of the owner: it stays or
is refreshed, if the key is not won and the owner does not release it. -/
theorem serve_keeps (now : Instant) {live? : Option Entry} {request : Request} {p : Process}
    (hasks : p.Asks request) (hvalue : ∀ e, live? = some e → e.value = l.owner)
    (hlost : p.bid? ≠ none → (request.serve now live?).1 ≠ .acquired)
    (hunreleased : ∀ e, p ≠ .releasing request.key l.owner e)
    (hrefresh : ∀ q cycle next? e, p = .renewing q (.refreshing cycle next? e) →
      q.key = request.key → q = r) :
    ((request.serve now live?).2 = live? ∨
      ∃ e, live? = some e ∧
        (request.serve now live?).2 = some { e with deadline? := now.after? r.interval }) ∧
      ∀ k started finished,
        ¬ Replaces k ⟨request, started, finished, (request.serve now live?).1⟩ := by
  cases hasks with
  | bid hbid =>
    cases live? with
    | none => exact absurd rfl (hlost (by simp [hbid]))
    | some e => exact ⟨.inl rfl, fun _ _ _ => id⟩
  | read => exact ⟨.inl rfl, fun _ _ _ => id⟩
  | @release key owner e =>
    cases live? with
    | none => exact ⟨.inl rfl, fun _ _ _ => id⟩
    | some entry =>
      have howner : entry.value ≠ owner := by
        intro howner
        rw [hvalue entry rfl] at howner
        exact hunreleased e (by rw [howner]; rfl)
      have hserve : Request.serve now (some entry) (.deleteIfEquals key owner) =
          (.removed false, some entry) := by
        simp only [Request.serve, if_neg howner]
      rw [hserve]
      exact ⟨.inl rfl, fun _ _ _ => id⟩
  | @refresh q cycle next? e =>
    obtain rfl := hrefresh q _ _ _ rfl rfl
    cases live? with
    | none => exact ⟨.inl rfl, fun _ _ _ => id⟩
    | some entry => exact ⟨.inr ⟨entry, rfl, rfl⟩, fun _ _ _ => id⟩

/-- While the renewal of a lease is not cancelled, no other renewal refreshes the
key. -/
theorem Serviced.refreshes_own (h : Serviced s own r) (hr : r.For l) (howned : Owned calls l r s)
    (hrenews : Renews s own r) {n : Nat} {q : Renewing} {cycle : Nat} {next? : Option Instant}
    {e : Errand} (hq : s.process? n = some (.renewing q (.refreshing cycle next? e)))
    (hkey : q.key = l.key) : q = r := by
  obtain ⟨⟨stage, hown⟩, -⟩ := hrenews
  have huncancelled := h.serial.uncancelled n q cycle next? e hq
  obtain ⟨owner, hregistered⟩ := h.registry.registered n q _ hq huncancelled
  have hmanager : q.manager = r.manager := by rw [h.manager_eq hq, h.manager_eq hown]
  have hsame := howned.registered
  rw [← hmanager, hr.key, ← hkey, hregistered] at hsame
  have hgeneration : q.generation = r.generation := by
    simp only [Option.some.injEq, Renewal.mk.injEq] at hsame
    exact hsame.2.2
  have hn : n = own := h.registry.distinct n own q r _ _ hq hown hmanager hgeneration
  subst hn
  rw [hown] at hq
  cases hq
  rfl

/-- The win of a key by a lock manager cancels the renewal that it has registered
for it. -/
theorem Serviced.not_won (h : Serviced s own r) (hr : r.For l) (howned : Owned calls l r s)
    (hrenews : Renews s own r) {p : Process} {w' : World} {next? : Option Process}
    {started : List Process} {lease? : Option Lease} (hp : p.Fit s.world s.now)
    (hdeed : Deed s.now s.world p w' next? started lease?)
    (huncancelled : w'.tokens.isCancelled r.token = false) {bid : Bid} (hbid : p.bid? = some bid)
    (hkey : bid.key = l.key) : lease? = none := by
  cases hlease : lease? with
  | none => rfl
  | some l' =>
    subst hlease
    obtain ⟨bid', call, service, r', -, hbid', -, -, hheld⟩ := hdeed.of_lease hp
    rw [hbid] at hbid'
    cases hbid'
    have hmanager : bid.manager = r.manager := by
      obtain ⟨⟨stage, hown⟩, -⟩ := hrenews
      have hlt := (hp.bid hbid).manager
      have hmanagers := h.managers
      rw [h.manager_eq hown]
      omega
    have hregistered := howned.registered
    have htoken := (h.registry.entry _ _ _ hregistered).1
    rw [← hmanager, hr.key, ← hkey] at hregistered
    rw [hheld.previous _ hregistered htoken] at huncancelled
    cases huncancelled

/-- A release of a lease cancels its renewal. -/
theorem Serviced.not_stopped (h : Serviced s own r) (hr : r.For l) (howned : Owned calls l r s)
    (hrenews : Renews s own r) {w' : World} {i : Nat} (hi : i < s.world.managers.length)
    (hstopped : Stopped s.world i l.key l.owner w') : w'.tokens.isCancelled r.token = true := by
  have hmanager : i = r.manager := by
    obtain ⟨⟨stage, hown⟩, -⟩ := hrenews
    have hmanagers := h.managers
    rw [h.manager_eq hown]
    omega
  subst hmanager
  have hregistered := howned.registered
  have htoken := (h.registry.entry _ _ _ hregistered).1
  rw [hr.key] at hregistered
  exact hstopped.previous _ hregistered rfl htoken

/-- A renewal that goes on uncancelled after a step did so before. -/
theorem Renews.of_step (hrenews : Renews s' own r) (h : Serviced s own r)
    (hstep : Step turn s c s') (hrule : Admitted s c s') : Renews s own r := by
  obtain ⟨⟨stage, hown⟩, huncancelled⟩ := hrenews
  refine ⟨?_, Bool.eq_false_iff.mpr fun hcancelled => ?_⟩
  · obtain hbefore | ⟨hn, -⟩ := renewal_cases h.sound hstep hrule hown
    · exact hbefore
    · exact absurd hn (Nat.ne_of_lt h.isRenewal.lt)
  · have hle := h.sound.world_le hstep
    rw [hle.tokens.cancelled _ hcancelled] at huncancelled
    cases huncancelled

/-- What a served call leaves of the entry of a lease. -/
theorem Owned.served (howned : Owned calls l r s) (h : Serviced s own r) (hr : r.For l)
    (hrenews : Renews s own r) {i : Nat} {p : Process} {call : Call} {a : Answer}
    {service : Service} (hp : s.process? i = some p) (hcall : p.call? = some call)
    (hserved : Service.Served s.now s.world.service call a service)
    (hlost : p.bid? ≠ none → call.request.key = l.key → a ≠ .acquired) :
    (∀ e, service.stored? l.key = some e → s.world.service.stored? l.key = some e ∨
      e.value = l.owner ∧ e.deadline? = s.now.after? r.interval) ∧
    ¬ Replaces l.key ⟨call.request, call.started, s.now, a⟩ := by
  by_cases hkey : l.key = call.request.key
  case neg =>
    refine ⟨fun e he => .inl ((hserved.others _ hkey).symm.trans he), fun hreplaces => ?_⟩
    exact hkey hreplaces.key_eq.symm
  have hfit := h.sound.fit _ _ hp
  have hlive : ∀ e, s.world.service.live? s.now l.key = some e →
      s.world.service.stored? l.key = some e := fun e he => (Memory.live?_eq_some.mp he).1
  have hentry := hserved.entry
  rw [← hkey, h.sound.face] at hentry
  obtain ⟨e, rfl, hsame⟩ | ⟨rfl, hafter⟩ := hentry
  · exact ⟨fun e he => .inl (hsame.symm.trans he), not_replaces_of_failed⟩
  have hkeeps := serve_keeps (l := l) (r := r) s.now (hfit.asks hcall).2
    (fun e he => howned.value e (hlive e he)) (fun hbid => hlost hbid hkey.symm)
    (fun e hreleasing => ?_) (fun q cycle next? e hq hqkey => ?_)
  · obtain ⟨hentry, hreplaces⟩ := hkeeps
    refine ⟨fun e he => ?_, hreplaces _ _ _⟩
    rw [hafter] at he
    obtain hsame | ⟨e₀, he₀, hrefreshed⟩ := hentry
    · exact .inl (hlive e (hsame.symm.trans he))
    · have heq := hrefreshed.symm.trans he
      simp only [Option.some.injEq] at heq
      subst heq
      exact .inr ⟨howned.value e₀ (hlive e₀ he₀), rfl⟩
  · rw [hreleasing] at hp
    rw [← hkey] at hp
    exact howned.unreleased i e hp
  · rw [hq] at hp
    exact h.refreshes_own hr howned hrenews hp (hqkey.trans hkey.symm)

/-- No release of the lease begins while its renewal goes on uncancelled. -/
theorem Owned.unreleased_step (howned : Owned calls l r s) (h : Serviced s own r) (hr : r.For l)
    (hbefore : Renews s own r) {i : Nat} {p : Process} {w' : World} {next? : Option Process}
    {started : List Process} {lease? : Option Lease} (hp : s.process? i = some p)
    (hdeed : Deed s.now s.world p w' next? started lease?)
    (huncancelled : w'.tokens.isCancelled r.token = false) (j : Nat) (e : Errand) :
    (s.advance i w' next? started).process? j ≠ some (.releasing l.key l.owner e) := by
  intro hq
  obtain ⟨-, hold⟩ | ⟨-, hnext⟩ | ⟨k, -, hnew⟩ := System.process?_advance_cases hq
  · exact howned.unreleased j e hold
  · obtain ⟨e₀, rfl⟩ | ⟨manager, hmanager, hstopped⟩ :=
      hdeed.of_releasing (h.sound.fit _ _ hp) hnext
    · exact howned.unreleased i e₀ hp
    · rw [h.not_stopped hr howned hbefore hmanager hstopped] at huncancelled
      cases huncancelled
  · obtain ⟨l', r', -, rfl⟩ := hdeed.of_started (List.mem_of_getElem? hnew)
    cases List.mem_singleton.mp (List.mem_of_getElem? hnew)

/-- A lease that is registered and not released stays owned if no call is
answered. -/
theorem Owned.of_kept (howned : Owned calls l r s)
    (hkept : Service.Kept s.now s.world.service s'.world.service) (hnow : s'.now = s.now)
    (hregistered : s'.world.registered? r.manager r.key = some ⟨l.owner, r.token, r.generation⟩)
    (hunreleased : ∀ i e, s'.process? i ≠ some (.releasing l.key l.owner e)) :
    Owned calls l r s' := by
  have hstored : ∀ e, s'.world.service.stored? l.key = some e →
      s.world.service.stored? l.key = some e := by
    intro e he
    obtain hsame | hlive := hkept.entries l.key
    · exact hsame.symm.trans he
    · exact (Memory.live?_eq_some.mp (hlive.symm.trans he)).1
  refine ⟨hregistered, fun e he => howned.value e (hstored e he), fun e he => ?_, ?_, hunreleased⟩
  · rw [hnow]
    exact howned.deadline e (hstored e he)
  · rw [hkept.journal]
    exact howned.journal

/-- A lease that is registered and not released stays owned if a call is answered
that does not replace its entry. -/
theorem Owned.of_served (howned : Owned calls l r s) {call : Call} {a : Answer}
    (hserved : Service.Served s.now s.world.service call a s'.world.service)
    (hnow : s'.now = s.now)
    (hentry : ∀ e, s'.world.service.stored? l.key = some e →
      s.world.service.stored? l.key = some e ∨
        e.value = l.owner ∧ e.deadline? = s.now.after? r.interval)
    (hreplaces : ¬ Replaces l.key ⟨call.request, call.started, s.now, a⟩)
    (hregistered : s'.world.registered? r.manager r.key = some ⟨l.owner, r.token, r.generation⟩)
    (hunreleased : ∀ i e, s'.process? i ≠ some (.releasing l.key l.owner e)) :
    Owned calls l r s' := by
  refine ⟨hregistered, fun e he => ?_, fun e he t ht hfirst => ?_, ?_, hunreleased⟩
  · exact (hentry e he).elim (howned.value e) fun ⟨hvalue, _⟩ => hvalue
  · rw [hnow] at ht
    obtain hold | ⟨-, hdeadline⟩ := hentry e he
    · exact howned.deadline e hold t ht hfirst
    · rw [hdeadline]
      exact notAfter_after? (Nat.add_le_add_right ht _)
  · obtain ⟨since, hjournal, hnone⟩ := howned.journal
    refine ⟨since ++ [⟨call.request, call.started, s.now, a⟩], ?_, fun f hf => ?_⟩
    · rw [hserved.journal, hjournal, List.append_assoc]
    · obtain hf | hf := List.mem_append.mp hf
      · exact hnone f hf
      · rw [List.mem_singleton.mp hf]
        exact hreplaces

/-- As long as its renewal goes on uncancelled, a lease stays owned. -/
theorem Owned.step (howned : Owned calls l r s) (h : Serviced s own r) (hr : r.For l)
    (hrenews : Renews s' own r) (hstep : Step turn s c s') (hrule : Admitted s c s') :
    Owned calls l r s' := by
  have hbefore := hrenews.of_step h hstep hrule
  have hregistered : s'.world.registered? r.manager r.key =
      some ⟨l.owner, r.token, r.generation⟩ := by
    obtain ⟨⟨stage, hown⟩, huncancelled⟩ := hrenews
    obtain ⟨⟨stage₀, hown₀⟩, -⟩ := hbefore
    exact h.registry.registered_step h.sound.placed hstep hown₀ hown rfl rfl howned.registered
      huncancelled
  cases h.sound.doing hstep with
  | start p =>
    refine ⟨hregistered, howned.value, howned.deadline, howned.journal, fun i e hp => ?_⟩
    obtain hp | ⟨-, rfl⟩ := System.process?_add_cases hp
    · exact howned.unreleased i e hp
    · cases hrule
  | pass hle =>
    exact ⟨hregistered, howned.value,
      fun e he t ht => howned.deadline e he t (Nat.le_trans hle ht), howned.journal,
      howned.unreleased⟩
  | @deed i p w' next? started lease? hp hdeed =>
    have hfit := h.sound.fit _ _ hp
    have hunreleased := howned.unreleased_step h hr hbefore hp hdeed hrenews.2
    obtain ⟨-, -, hkept⟩ | ⟨call, a, hcall, -, hserved, hlease⟩ := hdeed.kept_or_served hfit
    · exact howned.of_kept hkept rfl hregistered hunreleased
    · have hlost : p.bid? ≠ none → call.request.key = l.key → a ≠ .acquired := by
        intro hbid hkey hacquired
        obtain ⟨bid, hbid'⟩ := Option.ne_none_iff_exists'.mp hbid
        rw [hfit.request_of_bid hcall hbid'] at hkey
        have hnone := h.not_won hr howned hbefore hfit hdeed hrenews.2 hbid' hkey
        exact (hlease.mp hnone).elim hbid fun hne => hne hacquired
      obtain ⟨hentry, hreplaces⟩ := howned.served h hr hbefore hp hcall hserved hlost
      exact howned.of_served hserved rfl hentry hreplaces hregistered hunreleased

/-! ## Runs -/

/-- The first refresh does not move the deadline of a lease back: two intervals
cover the lease. -/
theorem Renewing.For.notAfter (hr : r.For l) {t : Instant}
    (ht : r.acquiredAt.nanos + r.interval.nanos ≤ t.nanos) :
    NotAfter (l.acquiredAt.after? l.duration) (t.after? r.interval) := by
  obtain ⟨n, hn⟩ := hr.written
  have hle := hn.duration_le
  have hat := hr.acquiredAt
  refine notAfter_after? ?_
  rw [← hat]
  omega

/-- A lease is owned from the moment it is won. -/
theorem Wins.owned {i : Nat} (h : Wins s i l r s') (hs : Sound s) (hserial : Serial s) :
    Owned s'.world.service.journal l r s' := by
  have hregistered := h.registered hs.placed
  obtain ⟨hnow, hat, hr, -, hentry⟩ := h.facts hs
  obtain ⟨p, bid, call, service, w, hp, hfit, hcall, hbid, -, -, rfl⟩ := h.deed hs
  refine ⟨hregistered, fun e he => ?_, fun e he t ht hfirst => ?_, ⟨[], by simp, by simp⟩,
    fun j e hq => ?_⟩
  · rw [hentry, Option.some.injEq] at he
    rw [← he]
  · rw [hentry, Option.some.injEq] at he
    rw [← he, ← hat]
    exact hr.notAfter hfirst
  · obtain ⟨hne, hold⟩ | ⟨-, hnone⟩ | ⟨k, -, hnew⟩ := System.process?_advance_cases hq
    · have hbusy : (Process.releasing l.key l.owner e).call?.isSome = true := by
        obtain ⟨c, rfl, -⟩ := hs.fit _ _ hold
        rfl
      exact hne (hserial.alone j i _ p hold hp hbusy (by rw [hcall]; rfl))
    · cases hnone
    · cases List.mem_singleton.mp (List.mem_of_getElem? hnew)

theorem owned_of_run {s₁ s₂ : Locks} (h : Serviced s₁ own r) (hr : r.For l)
    (howned : Owned s₁.world.service.journal l r s₁) (hrun : Run turn Serialised s₁ s₂) :
    Serviced s₂ own r ∧ (Renews s₂ own r → Owned s₁.world.service.journal l r s₂) := by
  refine hrun.preserves (I := fun s₂ => Serviced s₂ own r ∧
    (Renews s₂ own r → Owned s₁.world.service.journal l r s₂)) (fun ⟨h, howned⟩ hstep hrule => ?_)
    ⟨h, fun _ => howned⟩
  exact ⟨h.step hstep hrule, fun hrenews =>
    (howned (hrenews.of_step h hstep hrule.1)).step h hr hrenews hstep hrule.1⟩

/-! ## The main theorem -/

/-- A renewal that waits for an answer refreshes. -/
theorem refreshing_of_call {p : Process} {call : Call} {stage : RenewalStage}
    (hp : p = .renewing r stage) (hcall : p.call? = some call) :
    ∃ cycle next? e, p = .renewing r (.refreshing cycle next? e) := by
  subst hp
  cases stage with
  | starting | waiting => cases hcall
  | refreshing => exact ⟨_, _, _, rfl⟩

/-- With one lock manager and calls that take no time, every refresh of a renewal
fails, or it finds the entry that the acquisition of its own lease has written:
the entry is live, it has the token of the owner, and the key has not been set
or removed since.  Then the refresh moves the deadline of this entry, and not
back.  No refresh changes the entry of another key. -/
theorem refresh_own_entry {s₀ s s₁ s₂ s₃ : Locks} {i : Nat} {l : Lease} {r : Renewing}
    {p : Process} {a : Answer} (hfresh : Fresh s₀) (hmanagers : s₀.world.managers.length = 1)
    (hrun : Run turn Serialised s₀ s) (hwins : Wins s i l r s₁)
    (hrun' : Run turn Serialised s₁ s₂) (hp : s₂.process? s.processes.length = some p)
    (hanswer : p.answer? s₂.world s₂.now = some a)
    (hstep : Step turn s₂ (.turn s.processes.length) s₃) :
    (∀ k, k ≠ l.key → s₃.world.service.stored? k = s₂.world.service.stored? k) ∧
    ((∃ e, a = .failed e) ∨
      a = .done ∧ ∃ e, s₂.world.service.live? s₂.now l.key = some e ∧ e.value = l.owner ∧
        (∃ since, s₂.world.service.journal = s₁.world.service.journal ++ since ∧
          ∀ f ∈ since, ¬ Replaces l.key f) ∧
        s₃.world.service.stored? l.key =
          some { e with deadline? := s₂.now.after? l.renewalInterval } ∧
        NotAfter e.deadline? (s₂.now.after? l.renewalInterval)) := by
  obtain ⟨hs, -, hserial, -⟩ := hfresh.run_serialised hmanagers hrun
  obtain ⟨-, -, hr, -, -⟩ := hwins.facts hs
  have h₁ := hfresh.serviced hmanagers hrun hwins
  obtain ⟨h, howned⟩ := owned_of_run h₁ hr (hwins.owned hs hserial) hrun'
  obtain ⟨stage, hstage⟩ := h.isRenewal.same p hp
  cases h.sound.doing hstep with
  | @deed _ p' w' next? started lease? hp' hdeed =>
    rw [hp] at hp'
    cases hp'
    have hfit := h.sound.fit _ _ hp
    obtain ⟨-, hnone, -⟩ | ⟨call, a', hcall, hanswer', hserved, -⟩ := hdeed.kept_or_served hfit
    · rw [hnone] at hanswer
      cases hanswer
    rw [hanswer] at hanswer'
    cases hanswer'
    obtain ⟨cycle, tick?, e, rfl⟩ := refreshing_of_call hstage hcall
    have hrenews : Renews s₂ s.processes.length r := by
      cases hstage
      exact ⟨⟨_, hp⟩, h.serial.uncancelled _ _ _ _ _ hp⟩
    cases hstage
    have howned := howned hrenews
    have hrequest := hfit.request_of_refreshing hcall
    rw [hr.key, hr.interval] at hrequest
    have hothers := hserved.others
    have hentry := hserved.entry
    rw [hrequest] at hothers hentry
    refine ⟨hothers, ?_⟩
    obtain ⟨e, hfailed, -⟩ | ⟨ha, hafter⟩ := hentry
    · exact .inl ⟨e, hfailed⟩
    rw [h.sound.face] at ha hafter
    cases hlive : s₂.world.service.live? s₂.now l.key with
    | none =>
      rw [Request.key, hlive] at ha
      exact .inl ⟨_, ha⟩
    | some e =>
      have hstored : s₂.world.service.stored? l.key = some e := (Memory.live?_eq_some.mp hlive).1
      rw [Request.key, hlive] at ha hafter
      refine .inr ⟨ha, e, rfl, howned.value e hstored, howned.journal, hafter, ?_⟩
      rw [← hr.interval]
      exact howned.deadline e hstored s₂.now (Nat.le_refl _) hfit.2.1

/-- An owner holds a key for three seconds.  Another one tries to release it in
vain, and after two seconds it is refreshed. -/
theorem refresh_own_entry_single :
    ∃ s s₁ s₂ s₃ l r p, Fresh single ∧ single.world.managers.length = 1 ∧
      Run turn Serialised single s ∧ Wins s 0 l r s₁ ∧ Run turn Serialised s₁ s₂ ∧
      s₂.process? s.processes.length = some p ∧ p.answer? s₂.world s₂.now = some .done ∧
      Step turn s₂ (.turn s.processes.length) s₃ ∧
      ∃ e, s₂.world.service.live? s₂.now l.key = some e ∧ e.value = l.owner ∧
        s₃.world.service.stored? l.key =
          some { e with deadline? := s₂.now.after? l.renewalInterval } := by
  obtain ⟨s, s₁, s₂, s₃, l, r, p, hrun, hwins, hrun', hp, hanswer, hstep⟩ :
      ∃ s s₁ s₂ s₃ l r p, Run turn Serialised single s ∧ Wins s 0 l r s₁ ∧
        Run turn Serialised s₁ s₂ ∧ s₂.process? s.processes.length = some p ∧
        p.answer? s₂.world s₂.now = some .done ∧
        Step turn s₂ (.turn s.processes.length) s₃ :=
    ⟨_, _, _, _, _, _, _,
      Run.of_follow? [.start (.action (.tryAcquire 0 "k" "a" (.ofSeconds 3) "")), .turn 0] rfl,
      ⟨_, _, _, rfl, rfl, rfl⟩,
      Run.of_follow? [.turn 1, .start (.action (.release 0 "k" "b")), .turn 2, .turn 2,
        .pass { nanos := 2000000000 }, .turn 1] rfl,
      rfl, rfl, .of_step? rfl⟩
  obtain ⟨-, ⟨e, he⟩ | ⟨-, e, hlive, hvalue, -, hstored, -⟩⟩ :=
    refresh_own_entry fresh_single rfl hrun hwins hrun' hp hanswer hstep
  · cases he
  · exact ⟨s, s₁, s₂, s₃, l, r, p, fresh_single, rfl, hrun, hwins, hrun', hp, hanswer, hstep, e,
      hlive, hvalue, hstored⟩

end Leasehold.Lock
