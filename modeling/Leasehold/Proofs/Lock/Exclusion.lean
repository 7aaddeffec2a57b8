import Leasehold.Proofs.Lock.Runs

/-!
# How long a lease excludes others

Whoever wins a lock is told of a lease.  The store does not know whose refresh
it serves: it moves the deadline of a live key to an interval after the refresh,
whoever has asked for it.  So another renewal of the key, one whose own lease
has run out, can move the deadline to before the end of the lease.  Such a
refresh `Cuts` the lease.

`excludes_unless_cut` says that this is all that can go wrong.  As long as the
holder does not release its lock and no refresh cuts its lease, the key has its
token and nobody else wins it.  And after a refresh that cuts the lease there is
always a way on in which somebody else wins the key before the lease is over.
-/

namespace Leasehold.Lock

open Simulation

/-! ## Leases and what cuts them -/

/-- Whether an instant is within the time of a lease. -/
def Lease.Covers (l : Lease) (t : Instant) : Prop :=
  t.nanos ≤ l.acquiredAt.nanos + l.duration.nanos

instance (l : Lease) (t : Instant) : Decidable (l.Covers t) :=
  inferInstanceAs (Decidable (t.nanos ≤ l.acquiredAt.nanos + l.duration.nanos))

/-- A nanosecond. -/
def moment : Duration := { nanos := 1 }

/-- Whether a lease goes on after a time to live that begins now: it covers the
first instant after the deadline. -/
def Lease.Outlasts (l : Lease) (now : Instant) (ttl : Duration) : Prop :=
  ∃ t ∈ (now.after? ttl).bind (·.after? moment), l.Covers t

instance (l : Lease) (now : Instant) (ttl : Duration) : Decidable (l.Outlasts now ttl) :=
  inferInstanceAs (Decidable (∃ t ∈ (now.after? ttl).bind (·.after? moment), l.Covers t))

/-- The renewal whose refresh is carried out when the process of a number has
the next turn. -/
def refreshed? (s : Locks) (i : Nat) : Option Renewing :=
  (s.process? i).bind fun p => if p.answer? s.world s.now = some .done then p.renewal? else none

/-- The next turn of a process moves the deadline of a lease to before its end,
and the process is not the renewal of the lease, which has the number `own`. -/
def Cuts (own : Nat) (l : Lease) (s : Locks) (i : Nat) : Prop :=
  i ≠ own ∧ ∃ r ∈ refreshed? s i, r.key = l.key ∧ l.Outlasts s.now r.interval

instance (own : Nat) (l : Lease) (s : Locks) (i : Nat) : Decidable (Cuts own l s i) :=
  inferInstanceAs (Decidable (i ≠ own ∧
    ∃ r ∈ refreshed? s i, r.key = l.key ∧ l.Outlasts s.now r.interval))

/-- The holder of a lease does not release it. -/
def Unreleased (l : Lease) : Rule World Process := fun s c s' =>
  Admitted s c s' ∧
    match c with
    | .turn i => ∀ p ∈ s.process? i, ¬ p.Releases l.key l.owner
    | .start _ => True
    | .pass _ => True

instance (l : Lease) (s s' : Locks) (c : Choice Process) : Decidable (Unreleased l s c s') :=
  match c with
  | .turn i => inferInstanceAs (Decidable (_ ∧ ∀ p ∈ s.process? i, ¬ p.Releases l.key l.owner))
  | .start _ => inferInstanceAs (Decidable (_ ∧ True))
  | .pass _ => inferInstanceAs (Decidable (_ ∧ True))

/-- The holder of a lease does not release it, and no refresh cuts it. -/
def Uncut (own : Nat) (l : Lease) : Rule World Process := fun s c s' =>
  Unreleased l s c s' ∧
    match c with
    | .turn i => ¬ Cuts own l s i
    | .start _ => True
    | .pass _ => True

instance (own : Nat) (l : Lease) (s s' : Locks) (c : Choice Process) :
    Decidable (Uncut own l s c s') :=
  match c with
  | .turn i => inferInstanceAs (Decidable (_ ∧ ¬ Cuts own l s i))
  | .start _ => inferInstanceAs (Decidable (_ ∧ True))
  | .pass _ => inferInstanceAs (Decidable (_ ∧ True))

/-! ## The entry of a lease -/

/-- The key of a lease has the token of its owner for all of its time. -/
def Lease.IsKept (l : Lease) (s : Locks) : Prop :=
  ∃ e, s.world.service.stored? l.key = some e ∧ e.value = l.owner ∧
    ∀ t, l.Covers t → e.liveAt t = true

variable {s s' : Locks} {c : Choice Process} {l : Lease} {r : Renewing} {own : Nat}

theorem Lease.Covers.mono {t u : Instant} (h : l.Covers u) (hle : t.nanos ≤ u.nanos) :
    l.Covers t :=
  Nat.le_trans hle h

/-- A deadline that a lease does not outlast is late enough for it. -/
theorem liveAt_of_not_outlasts {now t : Instant} {ttl : Duration} {v : String}
    (h : ¬ l.Outlasts now ttl) (ht : l.Covers t) :
    (⟨v, now.after? ttl⟩ : Entry).liveAt t = true := by
  rw [Entry.liveAt_iff]
  intro u hu
  refine Nat.le_of_not_lt fun hlt => h ?_
  have hlimit : u.nanos + moment.nanos < 9223372036854775808000000000 :=
    Nat.lt_of_le_of_lt hlt t.nanos_lt
  refine ⟨⟨u.nanos + moment.nanos, hlimit⟩, ?_, ht.mono hlt⟩
  have hu : now.after? ttl = some u := hu
  rw [hu, Option.bind_some, Instant.after?_of_lt hlimit]
  rfl

/-- The renewal of a lease does not cut it. -/
theorem Renewing.For.not_outlasts {now : Instant} (hr : r.For l)
    (hnow : r.acquiredAt.nanos + r.interval.nanos ≤ now.nanos) :
    ¬ l.Outlasts now r.interval := by
  rintro ⟨t, ht, hcovers⟩
  obtain ⟨n, hn⟩ := hr.written
  have hle := hn.duration_le
  simp only [Option.mem_def, Option.bind_eq_some_iff] at ht
  obtain ⟨u, hu, ht⟩ := ht
  have hu := Instant.nanos_of_after?_eq_some hu
  have ht := Instant.nanos_of_after?_eq_some ht
  simp only [Lease.Covers, ← hr.acquiredAt, ht, hu, moment] at hcovers
  omega

/-- A lease is kept from the moment it is won. -/
theorem Wins.isKept {i : Nat} (h : Wins s i l r s') (hs : Sound s) : l.IsKept s' := by
  obtain ⟨-, hat, -, -, hentry⟩ := h.facts hs
  refine ⟨_, hentry, rfl, fun t ht => ?_⟩
  rw [Entry.liveAt_iff]
  intro u hu
  rw [Instant.nanos_of_after?_eq_some hu, ← hat]
  exact ht

/-- The key of a lease that is kept has the token of its owner. -/
theorem Lease.IsKept.value? (h : l.IsKept s) (hs : Sound s) {t : Instant} (ht : l.Covers t) :
    s.world.service.value? t l.key = some l.owner := by
  obtain ⟨e, he, hvalue, hlive⟩ := h
  have hsome : s.world.service.live? t l.key = some e := by
    rw [Service.live?, hs.face]
    exact Memory.live?_eq_some.mpr ⟨he, hlive t ht⟩
  rw [Service.value?_eq, hsome, Option.map_some, hvalue]

/-- Nobody wins the key of a lease that is kept. -/
theorem Lease.IsKept.not_wins (h : l.IsKept s) (hs : Sound s) (hnow : l.Covers s.now) {i : Nat}
    {l' : Lease} {r' : Renewing} (hwins : Wins s i l' r' s') : l'.key ≠ l.key := by
  intro hkey
  obtain ⟨-, -, -, hfree, -⟩ := hwins.facts hs
  have hvalue := h.value? hs hnow
  rw [Service.value?_eq, ← hkey, hfree] at hvalue
  cases hvalue

/-- An answer to a call leaves a lease kept, unless it is a release by the holder
or a refresh that cuts the lease. -/
theorem Lease.IsKept.served {i : Nat} {p : Process} {call : Call} {a : Answer} {service : Service}
    (h : l.IsKept s) (hs : Sound s) (hnow : l.Covers s.now) (hown : IsRenewal s own r)
    (hr : r.For l) (hp : s.process? i = some p) (hcall : p.call? = some call)
    (hanswer : p.answer? s.world s.now = some a)
    (hserved : Service.Served s.now s.world.service call a service)
    (hreleases : ¬ p.Releases l.key l.owner) (hcuts : ¬ Cuts own l s i) :
    ∃ e, service.stored? l.key = some e ∧ e.value = l.owner ∧
      ∀ t, l.Covers t → e.liveAt t = true := by
  obtain ⟨e, he, hvalue, hlive⟩ := h
  by_cases hkey : l.key = call.request.key
  case neg => exact ⟨e, (hserved.others _ hkey).trans he, hvalue, hlive⟩
  have hsome : s.world.service.live? s.now l.key = some e := by
    rw [Service.live?, hs.face]
    exact Memory.live?_eq_some.mpr ⟨he, hlive s.now hnow⟩
  have hentry := hserved.entry
  rw [← hkey, hsome, hs.face] at hentry
  obtain ⟨-, -, hsame⟩ | ⟨ha, hafter⟩ := hentry
  case inl => exact ⟨e, hsame.trans he, hvalue, hlive⟩
  have hfit := hs.fit _ _ hp
  obtain ⟨-, hasks⟩ := hfit.asks hcall
  generalize call.request = request at hasks hkey ha hafter
  cases hasks with
  | bid => exact ⟨e, hafter, hvalue, hlive⟩
  | read => exact ⟨e, hafter, hvalue, hlive⟩
  | @release key owner =>
    have hne : e.value ≠ owner := fun howner =>
      hreleases ⟨hkey.symm, (hvalue.symm.trans howner).symm⟩
    rw [Request.serve, if_neg hne] at hafter
    exact ⟨e, hafter, hvalue, hlive⟩
  | @refresh r' cycle next? errand =>
    refine ⟨_, hafter, hvalue, fun t ht => liveAt_of_not_outlasts ?_ ht⟩
    by_cases hi : i = own
    · subst hi
      obtain ⟨stage, hstage⟩ := hown.same _ hp
      cases hstage
      exact hr.not_outlasts hfit.2.1
    · intro houtlasts
      have hrefreshed : refreshed? s i = some r' := by
        simp [refreshed?, hp, hanswer, ha, Request.serve, Process.renewal?]
      exact hcuts ⟨hi, r', hrefreshed, hkey.symm, houtlasts⟩

/-- A step keeps a lease, unless the holder releases it or a refresh cuts it. -/
theorem Lease.IsKept.step (h : l.IsKept s) (hs : Sound s) (hnow : l.Covers s.now)
    (hown : IsRenewal s own r) (hr : r.For l) (hstep : Step turn s c s')
    (hrule : Uncut own l s c s') : l.IsKept s' := by
  cases hs.doing hstep with
  | start p => exact h
  | pass => exact h
  | @deed i p w' next? started lease? hp hdeed =>
    obtain ⟨-, -, hkept⟩ | ⟨call, a, hcall, hanswer, hserved, -⟩ :=
      hdeed.kept_or_served (hs.fit _ _ hp)
    · obtain ⟨e, he, hvalue, hlive⟩ := h
      refine ⟨e, ?_, hvalue, hlive⟩
      obtain hsame | hlive? := hkept.entries l.key
      · exact hsame.trans he
      · rw [System.world_advance, hlive?, hs.face]
        exact Memory.live?_eq_some.mpr ⟨he, hlive s.now hnow⟩
    · exact h.served hs hnow hown hr hp hcall hanswer hserved (hrule.1.2 p hp) hrule.2

/-- Until a lease is over its key has the token of its owner, as long as the
holder does not release it and no refresh cuts it. -/
theorem isKept_of_run {s₁ s₂ : Locks} {i : Nat} (hs : Sound s) (hwins : Wins s i l r s₁)
    (hrun : Run turn (Uncut s.processes.length l) s₁ s₂) (hcovers : l.Covers s₂.now) :
    Sound s₂ ∧ l.IsKept s₂ := by
  obtain ⟨-, -, hr, -, -⟩ := hwins.facts hs
  have hkept : Sound s₂ ∧ (l.Covers s₂.now → l.IsKept s₂) := by
    refine hwins.preserves (I := fun t => l.Covers t.now → l.IsKept t) hs (fun hrule => hrule.1.1)
      (fun ht hown hkept hstep hrule hcovers => ?_) (fun _ => hwins.isKept hs) hrun
    have hnow := hcovers.mono hstep.now_le
    exact (hkept hnow).step ht hnow hown hr hstep hrule
  exact ⟨hkept.1, hkept.2 hcovers⟩

/-! ## Winning a free key -/

theorem unreleased_turn {i : Nat} {p : Process} (hp : s.process? i = some p)
    (h : ¬ p.Releases l.key l.owner) : Unreleased l s (.turn i) s' := by
  refine ⟨trivial, ?_⟩
  rintro _ hq
  rw [hp] at hq
  cases hq
  exact h

/-- An action on the store that takes no time can be done at once. -/
theorem exists_run_act (s : Locks) (l : Lease) {a : StoreAction} (ha : a.Fit)
    (hturn : ∀ now sv, Service.taskTurn now sv (.action a) =
      .ends (sv.act now a).1 (sv.act now a).2 [] []) :
    ∃ s', Run turn (Unreleased l) s s' ∧ s'.now = s.now ∧
      s'.world = s.world.withService (s.world.service.act s.now a).1 := by
  let s₁ := s.add (.action (.store a))
  let s₂ := s₁.advance s.processes.length s.world (some (.store (.action a))) []
  have hlt : s.processes.length < s₁.processes.length :=
    System.lt_length_of_process? (s.process?_add_self _)
  have hp₁ : s₁.process? s.processes.length = some (.action (.store a)) := s.process?_add_self _
  have hp₂ : s₂.process? s.processes.length = some (.store (.action a)) :=
    System.process?_advance_self hlt _ _ _
  have hstart : Step turn s (.start (.action (.store a))) s₁ := .start _ _
  have hmoves : Step turn s₁ (.turn s.processes.length) s₂ := by
    have hbegun : turn s.now s.world (.action (.store a)) =
        .moves s.world (.store (.action a)) [] := rfl
    exact .moves hp₁ hbegun
  have hends : Step turn s₂ (.turn s.processes.length) (s₂.advance s.processes.length
      (s.world.withService (s.world.service.act s.now a).1) none []) := by
    have hdone : turn s.now s.world (.store (.action a)) =
        .ends (s.world.withService (s.world.service.act s.now a).1)
          (.store (s.world.service.act s.now a).2) [] [] := by
      simp only [turn, hturn]
      rfl
    exact .ends hp₂ hdone
  refine ⟨_, ((Run.refl.tail hstart ⟨ha, trivial⟩).tail hmoves ?_).tail hends ?_, rfl, rfl⟩
  · exact unreleased_turn hp₁ id
  · exact unreleased_turn hp₂ id

/-- Anybody can win a key that is free, if the store takes requests again and
takes no time for them. -/
theorem exists_wins_of_available (hmanager : 0 < s.world.managers.length)
    (hwrap : s.world.service.wrap ≠ .primitive) (hlatency : s.world.service.latency .set = .zero)
    (havailable : s.world.service.store.isAvailable = true)
    (hfree : s.world.service.live? s.now l.key = none) :
    ∃ s' s'' i l' r', Run turn (Unreleased l) s s' ∧ s'.now = s.now ∧ Wins s' i l' r' s'' ∧
      l'.key = l.key := by
  let lease := Duration.ofSeconds 1
  let bid : Bid := ⟨0, l.key, "", lease, (s.world.token "").1⟩
  let s₁ := s.add (.action (.tryAcquire 0 l.key "" lease ""))
  let e := (s.world.token "").2.service.errand s.now (.set l.key "" lease)
  let s₂ := s₁.advance s.processes.length (s.world.token "").2 (some (.trying bid e)) []
  have hlt : s.processes.length < s₁.processes.length :=
    System.lt_length_of_process? (s.process?_add_self _)
  have hp₁ : s₁.process? s.processes.length = some (.action (.tryAcquire 0 l.key "" lease "")) :=
    s.process?_add_self _
  have hp₂ : s₂.process? s.processes.length = some (.trying bid e) :=
    System.process?_advance_self hlt _ _ _
  have hstart : Step turn s (.start (.action (.tryAcquire 0 l.key "" lease ""))) s₁ := .start _ _
  have hlease : wholeSeconds? lease = some lease := by decide
  have hmoves : Step turn s₁ (.turn s.processes.length) s₂ := by
    have hbegun : turn s.now s.world (.action (.tryAcquire 0 l.key "" lease "")) =
        .moves (s.world.token "").2 (.trying bid e) [] := by
      simp only [turn, begin, tryAcquire, hlease]
      rfl
    exact .moves hp₁ hbegun
  have hservice : s₂.world.service = s.world.service := (s.world.quiet_token "").service
  have hcall : (Process.trying bid e).call? =
      some (s₂.world.service.call s.now (.set l.key "" lease)) := by
    have hsingle := Service.errand_eq_single (s := s₂.world.service) (by rwa [hservice]) s.now
      (.set l.key "" lease)
    have he : e = .single (s₂.world.service.call s.now (.set l.key "" lease)) := hsingle
    rw [he]
    rfl
  obtain ⟨service, hset⟩ : ∃ service, Service.callTurn s.now s₂.world.service
      (s₂.world.service.call s.now (.set l.key "" lease)) = .ends service .acquired [] [] := by
    rw [hservice]
    exact Service.callTurn_set_free hlatency havailable hfree
  have hwon : ∃ w l' r' records, turn s.now s₂.world (.trying bid e) =
      .ends w (.lease l') [.renewing r' .starting] records ∧ l'.key = l.key := by
    rw [turn_call hcall, hset]
    exact ⟨_, _, _, _, rfl, rfl⟩
  obtain ⟨w, l', r', records, hturn, hkey⟩ := hwon
  refine ⟨s₂, _, s.processes.length, l', r', ?_, rfl, ⟨_, w, records, hp₂, hturn, rfl⟩, hkey⟩
  exact (Run.refl.tail hstart ⟨hmanager, trivial⟩).tail hmoves (unreleased_turn hp₁ id)

/-- Anybody can win a key that is free, once the store takes requests again and
takes no time for them. -/
theorem exists_wins_of_free (hmanager : 0 < s.world.managers.length) (hs : Sound s)
    (hfree : s.world.service.live? s.now l.key = none) :
    ∃ s' s'' i l' r', Run turn (Unreleased l) s s' ∧ s'.now = s.now ∧ Wins s' i l' r' s'' ∧
      l'.key = l.key := by
  obtain ⟨s₁, hrun₁, hnow₁, hworld₁⟩ := exists_run_act s l (a := .latency .set .zero) trivial
    fun _ _ => rfl
  obtain ⟨s₂, hrun₂, hnow₂, hworld₂⟩ := exists_run_act s₁ l (a := .unavailable false) trivial
    fun _ _ => rfl
  have hrun := hrun₁.trans hrun₂
  have hsound : Sound s₂ := hs.run (fun h => h.1) hrun
  have hservice : s₂.world.service =
      (((s.world.service.act s.now (.latency .set .zero)).1).act s.now (.unavailable false)).1 := by
    rw [hworld₂, hnow₁, hworld₁]
    rfl
  obtain ⟨hlatency, havailable, hlive⟩ := s.world.service.act_ready s.now l.key
  rw [← hservice] at hlatency havailable hlive
  have hmanager₂ : 0 < s₂.world.managers.length := by
    rw [hworld₂, hworld₁]
    exact hmanager
  have hfree₂ : s₂.world.service.live? s₂.now l.key = none := by
    rw [hnow₂, hnow₁, hlive, hfree]
  obtain ⟨s₃, s₄, i, l', r', hrun₃, hnow₃, hwins, hkey⟩ :=
    exists_wins_of_available hmanager₂ hsound.wrap hlatency havailable hfree₂
  exact ⟨s₃, s₄, i, l', r', hrun.trans hrun₃, by rw [hnow₃, hnow₂, hnow₁], hwins, hkey⟩

/-- A refresh that is carried out moves the deadline of its key. -/
theorem deadline_of_refreshed {i : Nat} {r' : Renewing} (hs : Sound s)
    (hstep : Step turn s (.turn i) s') (hrefreshed : refreshed? s i = some r') :
    r'.manager < s'.world.managers.length ∧
      ∃ e, s'.world.service.stored? r'.key = some e ∧ e.deadline? = s.now.after? r'.interval := by
  cases hs.doing hstep with
  | @deed _ p w' next? started lease? hp hdeed =>
    have hfit := hs.fit _ _ hp
    simp only [refreshed?, hp, Option.bind_some, Option.ite_none_right_eq_some] at hrefreshed
    obtain ⟨hdone, hrenewal⟩ := hrefreshed
    obtain ⟨-, hnone, -⟩ | ⟨call, a, hcall, hanswer, hserved, -⟩ := hdeed.kept_or_served hfit
    · rw [hnone] at hdone
      cases hdone
    rw [hdone] at hanswer
    cases hanswer
    cases p with
    | action | later | attempting | asking | resting | trying | releasing | store => cases hrenewal
    | renewing _ stage =>
      cases hrenewal
      refine ⟨Nat.lt_of_lt_of_le hfit.1.manager (Nat.le_of_eq (hdeed.le hfit).managers.symm), ?_⟩
      obtain ⟨-, hasks⟩ := hfit.asks hcall
      have hentry := hserved.entry
      rw [hs.face] at hentry
      generalize call.request = request at hasks hentry
      cases hasks with
      | bid hbid => cases hbid
      | refresh =>
        obtain ⟨e, he, -⟩ | ⟨ha, hafter⟩ := hentry
        · cases he
        · cases hlive : s.world.service.live? s.now r'.key with
          | none => simp [Request.serve, Request.key, hlive] at ha
          | some e =>
            simp only [Request.serve, Request.key, hlive] at hafter
            exact ⟨_, hafter, rfl⟩

/-- After a refresh that cuts a lease, the key can be won by somebody else before
the lease is over. -/
theorem exists_wins_of_cuts {i : Nat} (hs : Sound s) (hcuts : Cuts own l s i)
    (hstep : Step turn s (.turn i) s') :
    ∃ s₁ s₂ j l' r', Run turn (Unreleased l) s' s₁ ∧ l.Covers s₁.now ∧ Wins s₁ j l' r' s₂ ∧
      l'.key = l.key := by
  obtain ⟨-, r', hrefreshed, hkey, v, hv, hcovers⟩ := hcuts
  obtain ⟨hmanager, e, he, hdeadline⟩ := deadline_of_refreshed hs hstep hrefreshed
  simp only [Option.mem_def, Option.bind_eq_some_iff] at hv
  obtain ⟨u, hu, hv⟩ := hv
  have hlt : u.nanos < v.nanos := by
    rw [Instant.nanos_of_after?_eq_some hv]
    exact Nat.lt_succ_self _
  have hle : s'.now ≤ v := by
    have hnow : s'.now = s.now := by cases hstep <;> rfl
    rw [hnow]
    exact Nat.le_trans (Instant.le_of_after?_eq_some hu) (Nat.le_of_lt hlt)
  have hpass : Step turn s' (.pass v) (s'.passTo v) := .pass hle
  have hs' : Sound s' := hs.step hstep trivial
  have hpassed : Sound (s'.passTo v) := hs'.step hpass trivial
  -- The deadline is over, so the entry is not live any more.
  have hfree : (s'.passTo v).world.service.live? (s'.passTo v).now l.key = none := by
    have hdead : e.liveAt v = false := by
      rw [Bool.eq_false_iff, ne_eq, Entry.liveAt_iff]
      intro hall
      exact absurd (hall u (hdeadline.trans hu)) (Nat.not_le.mpr hlt)
    rw [← hkey, Service.live?, System.world_passTo, hs'.face, Memory.live?]
    have hfind : s'.world.service.store.contents.entries.find? r'.key = some e := he
    simp [hfind, hdead, Option.filter_some, Face.read]
  have hmanagers : 0 < (s'.passTo v).world.managers.length := Nat.zero_lt_of_lt hmanager
  obtain ⟨s₁, s₂, j, l', r'', hrun, hnow, hwins, hkey'⟩ :=
    exists_wins_of_free hmanagers hpassed hfree
  exact ⟨s₁, s₂, j, l', r'', hrun.head hpass ⟨trivial, trivial⟩, by rw [hnow]; exact hcovers, hwins,
    hkey'⟩

/-! ## The main theorem -/

/-- Whoever wins a lock has it for the time of the lease, unless he releases it
or a refresh of another renewal cuts the lease: until then the key has his token
and nobody wins it.  A refresh that cuts the lease does let somebody else win
the key in time, in some continuation without a release. -/
theorem excludes_unless_cut {s₀ s s₁ s₂ : Locks} {i : Nat} {l : Lease} {r : Renewing}
    (hfresh : Fresh s₀) (hrun : Run turn Admitted s₀ s) (hwins : Wins s i l r s₁)
    (huncut : Run turn (Uncut s.processes.length l) s₁ s₂) (hcovers : l.Covers s₂.now) :
    (s₂.world.service.value? s₂.now l.key = some l.owner ∧
      ∀ j l' r' s₃, Wins s₂ j l' r' s₃ → l'.key ≠ l.key) ∧
    ∀ j s₃, Step turn s₂ (.turn j) s₃ → Cuts s.processes.length l s₂ j →
      ∃ s₄ s₅ j' l' r', Run turn (Unreleased l) s₃ s₄ ∧ l.Covers s₄.now ∧
        Wins s₄ j' l' r' s₅ ∧ l'.key = l.key := by
  have hs : Sound s := hfresh.sound.run id hrun
  obtain ⟨hs₂, hkept⟩ := isKept_of_run hs hwins huncut hcovers
  exact ⟨⟨hkept.value? hs₂ hcovers, fun j l' r' s₃ hwins' => hkept.not_wins hs₂ hcovers hwins'⟩,
    fun j s₃ hstep hcuts => exists_wins_of_cuts hs₂ hcuts hstep⟩

/-- Two lock managers before a store that fails every refresh. -/
def unrefreshed : Locks where
  now := .epoch
  world := { service := { store := .faulty { refreshFails := true } }, managers := [{}, {}] }

/-- A lease of two seconds runs out, since its refreshes fail.  Then refreshes
work again, and another owner wins the key for ten seconds.  The third refresh
of the first renewal cuts his lease. -/
theorem excludes_unless_cut_of_stale :
    ∃ s s₁ s₂ s₃ l r, Fresh unrefreshed ∧ Run turn Admitted unrefreshed s ∧ Wins s 3 l r s₁ ∧
      Run turn (Uncut s.processes.length l) s₁ s₂ ∧ l.Covers s₂.now ∧
      s₂.world.service.value? s₂.now l.key = some l.owner ∧
      Step turn s₂ (.turn 1) s₃ ∧ Cuts s.processes.length l s₂ 1 ∧
      ∃ s₄ s₅ j' l' r', Run turn (Unreleased l) s₃ s₄ ∧ l.Covers s₄.now ∧ Wins s₄ j' l' r' s₅ ∧
        l'.key = l.key := by
  have hfresh : Fresh unrefreshed := by
    refine ⟨rfl, by decide, fun i k => ?_, rfl⟩
    match i with
    | 0 | 1 | _ + 2 => rfl
  obtain ⟨s, s₁, l, r, hrun, hwins, hl⟩ : ∃ s s₁ l r, Run turn Admitted unrefreshed s ∧
      Wins s 3 l r s₁ ∧ ∃ s₂ s₃, Run turn (Uncut s.processes.length l) s₁ s₂ ∧ l.Covers s₂.now ∧
        Step turn s₂ (.turn 1) s₃ ∧ Cuts s.processes.length l s₂ 1 :=
    ⟨_, _, _, _, Run.of_follow? [
        .start (.action (.tryAcquire 1 "k" "a" (.ofSeconds 2) "")), .turn 0, .turn 0, .turn 1,
        .pass { nanos := 1000000000 }, .turn 1, .turn 1,
        .pass { nanos := 2000000000 }, .turn 1, .turn 1,
        .pass { nanos := 2500000000 },
        .start (.action (.store (.refreshFails false))), .turn 2, .turn 2,
        .start (.action (.tryAcquire 0 "k" "b" (.ofSeconds 10) "")), .turn 3] rfl,
      ⟨_, _, _, rfl, rfl, rfl⟩,
      _, _, Run.of_follow? [.turn 4, .pass { nanos := 3000000000 }, .turn 1] rfl, by decide,
      .of_step? rfl, by decide⟩
  obtain ⟨s₂, s₃, huncut, hcovers, hstep, hcuts⟩ := hl
  have h := excludes_unless_cut hfresh hrun hwins huncut hcovers
  exact ⟨s, s₁, s₂, s₃, l, r, hfresh, hrun, hwins, huncut, hcovers, h.1.1, hstep, hcuts,
    h.2 1 s₃ hstep hcuts⟩

end Leasehold.Lock
