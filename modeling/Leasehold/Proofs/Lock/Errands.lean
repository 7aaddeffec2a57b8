import Leasehold.Proofs.Lock.Registrations
import Leasehold.Proofs.Store.Likeness

/-!
# What a turn does to the store

A turn leaves the live entries of the store alone, or it is the end of one call
(`Effect`).  `turn_isEffect` says so of all processes that ask the store for what they
are about (`Process.Apt`).

This asks less of a process than `Process.Fit`: others may write to the store too.  All
that is asked of the store is that it compares and deletes in one call.

Where nobody is told that a key was free, nobody comes to hold it: no value turns up in
the store that was not there before (`Apt.value?_step`), and no entry in a registry
(`Apt.registered_step`).
-/

namespace Leasehold

/-- A request gives its key no value that it did not have, unless it is told that the key
was free. -/
theorem Request.serve_value {now : Instant} {live? : Option Entry} {r : Request} {e : Entry}
    (hanswer : (r.serve now live?).1 ≠ .acquired) (he : (r.serve now live?).2 = some e) :
    ∃ e₀, live? = some e₀ ∧ e₀.value = e.value := by
  cases r with
  | set k v ttl =>
    cases live? with
    | none => exact absurd rfl hanswer
    | some e₀ => exact ⟨e₀, rfl, congrArg Entry.value (Option.some.inj he)⟩
  | get k => exact ⟨e, he, rfl⟩
  | delete k => cases he
  | refresh k ttl =>
    cases live? with
    | none => cases he
    | some e₀ => cases he; exact ⟨e₀, rfl, rfl⟩
  | deleteIfEquals k v =>
    cases live? with
    | none => cases he
    | some e₀ =>
      simp only [Request.serve] at he
      split at he
      · cases he
      · exact ⟨e₀, rfl, congrArg Entry.value (Option.some.inj he)⟩

/-- A call that is not told that its key was free leaves no value that was not there. -/
theorem Service.Served.live?_before {now : Instant} {s s' : Service} {c : Call} {a : Answer}
    (h : Served now s c a s') {k : String} (hnew : c.request.key = k → a ≠ .acquired) {e : Entry}
    (he : s'.live? now k = some e) : ∃ e₀, s.live? now k = some e₀ ∧ e₀.value = e.value := by
  rw [live?, Memory.live?_eq_some, h.face] at he
  obtain ⟨hstored, halive⟩ := he
  have hbefore : s.stored? k = some e → ∃ e₀, s.live? now k = some e₀ ∧ e₀.value = e.value :=
    fun hold => ⟨e, Memory.live?_eq_some.mpr ⟨hold, halive⟩, rfl⟩
  by_cases hk : k = c.request.key
  · subst hk
    obtain ⟨_, -, hsame⟩ | ⟨ha, hentry⟩ := h.entry
    · exact hbefore (hsame ▸ hstored)
    · exact Request.serve_value (ha ▸ hnew rfl) (hentry.symm.trans hstored)
  · exact hbefore (h.others k hk ▸ hstored)

namespace Lock

open Simulation

/-! ## Processes and what they ask for -/

/-- A process whose errand is one call, for what the process is about. -/
def Process.Apt : Process → Prop
  | .asking bid _ _ e => AsksFor e (.set bid.key bid.owner bid.ttl)
  | .trying bid e => AsksFor e (.set bid.key bid.owner bid.ttl)
  | .releasing key owner e => AsksFor e (.deleteIfEquals key owner)
  | .renewing r (.refreshing _ _ e) => AsksFor e (.refresh r.key r.interval)
  | .store (.errand e) => ∃ request, AsksFor e request
  | _ => True

/-- The next turn of a process is told that a key was free. -/
def Process.Obtains (w : World) (now : Instant) (k : String) (p : Process) : Prop :=
  p.answer? w now = some .acquired ∧ ∃ c ∈ p.call?, c.request.key = k

instance (w : World) (now : Instant) (k : String) (p : Process) : Decidable (p.Obtains w now k) :=
  inferInstanceAs (Decidable (_ ∧ ∃ c ∈ p.call?, c.request.key = k))

section

variable {now : Instant} {w w' : World} {p : Process} {c : Call}

theorem Process.Apt.sound (hp : p.Apt) (hc : p.call? = some c) : c.Sound := by
  cases Process.awaits hc with
  | asking | trying | releasing | refreshing =>
    obtain ⟨_, ⟨⟩, hsound, -⟩ := hp
    exact hsound
  | reading =>
    obtain ⟨_, _, ⟨⟩, hsound, -⟩ := hp
    exact hsound

theorem Process.Apt.withCall {c' : Call} (hp : p.Apt) (hc : p.call? = some c) (hsound : c'.Sound)
    (hrequest : c'.request = c.request) : (p.withCall c').Apt := by
  cases Process.awaits hc with
  | asking | trying | releasing | refreshing =>
    obtain ⟨_, ⟨⟩, -, hr⟩ := hp
    exact ⟨c', rfl, hsound, hrequest.trans hr⟩
  | reading => exact ⟨_, c', rfl, hsound, rfl⟩

/-- A bid asks for its key. -/
theorem Process.Apt.key_of_bid {bid : Bid} (hp : p.Apt) (hc : p.call? = some c)
    (hbid : p.bid? = some bid) : c.request.key = bid.key := by
  cases Process.awaits hc with
  | asking | trying =>
    obtain ⟨_, ⟨⟩, -, hr⟩ := hp
    cases hbid
    rw [hr, Request.key]
  | releasing | refreshing | reading => cases hbid

/-! ## Effects -/

/-- What a turn of a process does to the store. -/
inductive Effect (now : Instant) (w : World) (p : Process) (w' : World) : Prop where
  /-- No call ends, and only expired entries are dropped. -/
  | kept : p.answer? w now = none → Service.Kept now w.service w'.service → Effect now w p w'
  /-- A call ends. -/
  | served {c a} : p.call? = some c → p.answer? w now = some a →
      Service.Served now w.service c a w'.service → Effect now w p w'

/-- The step of a turn, if there is one, has an effect, and what goes on asks for what it is
about.  Something is started only if a key was free. -/
def IsEffect (now : Instant) (w : World) (p : Process) : Turn World Process Result → Prop
  | .waits _ => True
  | .moves w' q _ => Effect now w p w' ∧ q.Apt
  | .ends w' _ started _ => Effect now w p w' ∧ (∀ q ∈ started, q.Apt) ∧
      (started ≠ [] → p.answer? w now = some .acquired)

@[simp] theorem isEffect_after {t : Turn World Process Result} {records : List Log.Record} :
    IsEffect now w p (t.after records) ↔ IsEffect now w p t := by
  cases t <;> rfl

theorem Effect.wrap (h : Effect now w p w') : w'.service.wrap = w.service.wrap := by
  cases h with
  | kept _ hkept => exact hkept.wrap
  | served _ _ hserved => exact hserved.wrap

theorem effect_of_service (hc : p.call? = none) (hservice : w'.service = w.service) :
    Effect now w p w' := by
  refine .kept (by simp only [Process.answer?, hc]) ?_
  rw [hservice]
  exact .refl now _

/-! ## Every turn is an effect -/

theorem isEffect_ends (h : Effect now w p w') {result : Result} {records : List Log.Record} :
    IsEffect now w p (.ends w' result [] records) :=
  ⟨h, by simp, fun hne => absurd rfl hne⟩

/-- A bid that wins starts a renewal. -/
theorem isEffect_won {s : Service} {bid : Bid} {attempts? : Option Nat}
    (hanswer : p.answer? w now = some .acquired)
    (heffect : ∀ w' : World, w'.service = s → Effect now w p w') :
    IsEffect now w p (won (w.withService s) now bid attempts?) := by
  have hhold := (w.withService s).hold_eq now bid
  simp only [won, hhold]
  refine ⟨heffect _ rfl, fun q hq => ?_, fun _ => hanswer⟩
  rw [List.mem_singleton.mp hq]
  trivial

/-- A process whose call ends does so with the effect of the call. -/
theorem isEffect_call (hp : p.Apt) (hc : p.call? = some c) :
    IsEffect now w p (turn now w p) := by
  rw [turn_call hc]
  cases h : Service.callTurn now w.service c with
  | waits due? => trivial
  | moves s c' records =>
    obtain ⟨hsound, hrequest, -⟩ := Service.callTurn_moves h
    exact ⟨.kept (by simp only [Process.answer?, hc, h]) (Service.kept_of_callTurn h),
      hp.withCall hc hsound hrequest⟩
  | ends s a started records =>
    have hanswer : p.answer? w now = some a := by simp only [Process.answer?, hc, h]
    have hserved := Service.served_of_callTurn (hp.sound hc) h
    have heffect : ∀ w' : World, w'.service = s → Effect now w p w' := by
      rintro w' rfl
      exact .served hc hanswer hserved
    rw [isEffect_after]
    cases Process.awaits hc with
    | asking =>
      cases a with
      | acquired => exact isEffect_won hanswer heffect
      | occupied | value | done | removed | failed => exact ⟨heffect _ rfl, trivial⟩
    | trying =>
      cases a with
      | acquired => exact isEffect_won hanswer heffect
      | occupied | value | done | removed | failed => exact isEffect_ends (heffect _ rfl)
    | refreshing => exact ⟨heffect _ rfl, trivial⟩
    | releasing | reading => exact isEffect_ends (heffect _ rfl)

theorem isEffect_acquire {a : Action} {manager : Nat} {key owner cancel : String}
    {lease timeout : Duration} (hservice : w'.service = w.service) :
    IsEffect now w (.action a) (acquire w' now manager key owner lease timeout cancel) := by
  unfold acquire
  split
  next => exact isEffect_ends (effect_of_service rfl hservice)
  next =>
    have htoken := w'.quiet_token cancel
    exact ⟨effect_of_service rfl (htoken.service.trans hservice), trivial⟩

theorem isEffect_begin (hwrap : w.service.wrap ≠ .primitive) (a : Action) :
    IsEffect now w (.action a) (begin now w a) := by
  have hquiet : ∀ {w' : World} {result : Result}, w.Quiet w' →
      IsEffect now w (.action a) (.ends w' result [] []) := fun hquiet =>
    isEffect_ends (effect_of_service rfl hquiet.service)
  cases a with
  | acquire | acquireDefault => exact isEffect_acquire rfl
  | tryAcquire manager key owner lease cancel =>
    simp only [begin, tryAcquire]
    split
    next => exact hquiet (.refl w)
    next =>
      have htoken := w.quiet_token cancel
      have hwrap' : (w.token cancel).2.service.wrap ≠ .primitive := by rwa [htoken.service]
      exact ⟨effect_of_service rfl htoken.service, asksFor_errand hwrap' now _⟩
  | release manager key owner =>
    exact ⟨effect_of_service rfl rfl, asksFor_errand hwrap now _⟩
  | cancel name => exact hquiet (w.quiet_cancel name)
  | child parent name => exact hquiet (w.quiet_childToken parent name)
  | config manager => exact hquiet (.refl w)
  | store a => exact ⟨effect_of_service rfl rfl, trivial⟩

theorem isEffect_renewalTurn (hwrap : w.service.wrap ≠ .primitive) {r : Renewing}
    {stage : RenewalStage} (hstage : ∀ cycle next? e, stage ≠ .refreshing cycle next? e) :
    IsEffect now w (.renewing r stage) (renewalTurn now w r stage) := by
  have hcall : (Process.renewing r stage).call? = none := by
    cases stage with
    | starting | waiting => rfl
    | refreshing cycle next? e => exact absurd rfl (hstage cycle next? e)
  have hretire : Effect now w (.renewing r stage) (w.retire r) := effect_of_service hcall rfl
  have hends : ∀ e, IsEffect now w (.renewing r stage) (renewalEnds w r e) := fun e =>
    isEffect_ends hretire
  cases stage with
  | starting =>
    simp only [renewalTurn]
    split
    · exact hends _
    · exact ⟨effect_of_service hcall rfl, trivial⟩
  | waiting cycle tick? =>
    simp only [renewalTurn]
    split
    · exact hends _
    split
    · exact hends _
    split
    · trivial
    split
    · exact ⟨effect_of_service hcall rfl, asksFor_errand hwrap now _⟩
    · trivial
  | refreshing cycle next? e => exact absurd rfl (hstage cycle next? e)

theorem isEffect_storeAction (hwrap : w.service.wrap ≠ .primitive) (a : StoreAction) :
    IsEffect now w (.store (.action a)) (turn now w (.store (.action a))) := by
  have hacted : ∀ a, Effect now w (.store (.action a)) (w.withService (w.service.act now a).1) :=
    fun a => .kept rfl (Service.act_kept now w.service a)
  cases a with
  | request r => exact ⟨effect_of_service rfl rfl, r, asksFor_errand hwrap now r⟩
  | sleep d => exact ⟨effect_of_service rfl rfl, trivial⟩
  | value | ttl | size | requests | refreshCount | clearRequests | unavailable | refreshFails
  | refreshLatency | latency => exact isEffect_ends (hacted _)

/-- Every step of a process that asks for what it is about has an effect. -/
theorem turn_isEffect (now : Instant) (hp : p.Apt) (hwrap : w.service.wrap ≠ .primitive) :
    IsEffect now w p (turn now w p) := by
  cases p with
  | action a => exact isEffect_begin hwrap a
  | later due? a =>
    simp only [turn]
    split
    · exact ⟨effect_of_service rfl rfl, trivial⟩
    · trivial
  | attempting bid deadline? attempts =>
    simp only [turn]
    split
    · exact isEffect_ends (effect_of_service rfl rfl)
    · exact ⟨effect_of_service rfl rfl, asksFor_errand hwrap now _⟩
  | resting bid deadline? attempts due? =>
    simp only [turn]
    split
    · exact isEffect_ends (effect_of_service rfl rfl)
    split
    · exact ⟨effect_of_service rfl rfl, trivial⟩
    · trivial
  | asking bid deadline? attempts e =>
    obtain ⟨c, rfl, hsound⟩ := hp
    exact isEffect_call ⟨c, rfl, hsound⟩ rfl
  | trying bid e =>
    obtain ⟨c, rfl, hsound⟩ := hp
    exact isEffect_call ⟨c, rfl, hsound⟩ rfl
  | releasing key owner e =>
    obtain ⟨c, rfl, hsound⟩ := hp
    exact isEffect_call ⟨c, rfl, hsound⟩ rfl
  | renewing r stage =>
    cases stage with
    | starting | waiting =>
      refine isEffect_renewalTurn hwrap ?_
      rintro _ _ _ ⟨⟩
    | refreshing cycle next? e =>
      obtain ⟨c, rfl, hsound⟩ := hp
      exact isEffect_call ⟨c, rfl, hsound⟩ rfl
  | store task =>
    cases task with
    | action a => exact isEffect_storeAction hwrap a
    | errand e =>
      obtain ⟨r, c, rfl, hsound⟩ := hp
      exact isEffect_call ⟨r, c, rfl, hsound⟩ rfl
    | asleep due? =>
      simp only [turn, Service.taskTurn]
      split
      · exact isEffect_ends (effect_of_service rfl rfl)
      · trivial

end

/-! ## Runs -/

/-- A system whose store compares and deletes in one call, and whose processes ask it for
what they are about. -/
structure Apt (s : Locks) : Prop where
  wrap : s.world.service.wrap ≠ .primitive
  processes : ∀ i p, s.process? i = some p → p.Apt

/-- What a choice does to the store. -/
inductive Effecting (s : Locks) : Choice Process → Locks → Prop where
  | turn {i p w' next? started} : s.process? i = some p → Effect s.now s.world p w' →
      (∀ q, next? = some q → q.Apt) → (∀ q ∈ started, q.Apt) →
      (started ≠ [] → p.answer? s.world s.now = some .acquired) →
      Effecting s (.turn i) (s.advance i w' next? started)
  | start (p) : Effecting s (.start p) (s.add p)
  | pass {t} : s.now ≤ t → Effecting s (.pass t) (s.passTo t)

variable {s s' : Locks} {c : Choice Process}

theorem Blank.apt (h : Blank s) (hwrap : s.world.service.wrap ≠ .primitive) : Apt s := by
  refine ⟨hwrap, fun i p hp => ?_⟩
  rw [h.process?_eq_none] at hp
  cases hp

theorem Apt.effecting (hs : Apt s) (hstep : Step turn s c s') : Effecting s c s' := by
  cases hstep with
  | @moves i p w' q records hp hturn =>
    have heffect := turn_isEffect s.now (hs.processes _ _ hp) hs.wrap
    rw [hturn] at heffect
    obtain ⟨heffect, hq⟩ := heffect
    refine .turn hp heffect ?_ (by simp) (fun hne => absurd rfl hne)
    rintro _ ⟨⟩
    exact hq
  | @ends i p w' result started records hp hturn =>
    have heffect := turn_isEffect s.now (hs.processes _ _ hp) hs.wrap
    rw [hturn] at heffect
    obtain ⟨heffect, hstarted, hacquired⟩ := heffect
    exact .turn hp heffect (by simp) hstarted hacquired
  | start p => exact .start p
  | pass hle => exact .pass hle

theorem Apt.step (hs : Apt s) (hstep : Step turn s c s') (hrule : Addressed s c s') : Apt s' := by
  cases hs.effecting hstep with
  | turn hp heffect hnext hstarted =>
    refine ⟨by rw [System.world_advance, heffect.wrap]; exact hs.wrap, fun j q hq => ?_⟩
    obtain ⟨-, hq⟩ | ⟨-, hq⟩ | ⟨k, -, hq⟩ := System.process?_advance_cases hq
    · exact hs.processes j q hq
    · exact hnext q hq
    · exact hstarted q (List.mem_of_getElem? hq)
  | start p =>
    refine ⟨hs.wrap, fun j q hq => ?_⟩
    obtain hq | ⟨-, rfl⟩ := System.process?_add_cases hq
    · exact hs.processes j q hq
    · cases q with
      | action | later => trivial
      | attempting | asking | resting | trying | releasing | renewing | store => cases hrule
  | pass => exact ⟨hs.wrap, hs.processes⟩

theorem Apt.run (hs : Apt s) (hrun : Run turn Addressed s s') : Apt s' :=
  hrun.preserves (fun hs hstep hrule => hs.step hstep hrule) hs

/-! ## Keys that nobody obtains -/

/-- Users address lock managers that exist, and nobody is told that the key was free. -/
def Untaken (k : String) : Rule World Process := fun s c s' =>
  Addressed s c s' ∧
    match c with
    | .turn i => ∀ p ∈ s.process? i, ¬ p.Obtains s.world s.now k
    | .start _ | .pass _ => True

instance (k : String) (s s' : Locks) (c : Choice Process) : Decidable (Untaken k s c s') :=
  match c with
  | .turn i => inferInstanceAs (Decidable (_ ∧ ∀ p ∈ s.process? i, ¬ p.Obtains s.world s.now k))
  | .start _ | .pass _ => inferInstanceAs (Decidable (_ ∧ True))

/-- A key that nobody obtains gets no value that it did not have. -/
theorem Apt.value?_step (hs : Apt s) {k v : String} (hstep : Step turn s c s')
    (huntaken : Untaken k s c s') (hv : s'.world.service.value? s'.now k = some v) :
    s.world.service.value? s.now k = some v := by
  rw [Service.value?_eq, Option.map_eq_some_iff] at hv ⊢
  obtain ⟨e, he, hv⟩ := hv
  cases hs.effecting hstep with
  | @turn i p w' next? started hp heffect =>
    have hlive : w'.service.live? s.now k = some e := he
    cases heffect with
    | kept _ hkept => exact ⟨e, hkept.live? k ▸ hlive, hv⟩
    | @served call a hcall hanswer hserved =>
      have hnew : call.request.key = k → a ≠ .acquired := by
        rintro hk rfl
        exact huntaken.2 p hp ⟨hanswer, call, hcall, hk⟩
      obtain ⟨e₀, hlive₀, hvalue⟩ := hserved.live?_before hnew hlive
      exact ⟨e₀, hlive₀, hvalue.trans hv⟩
  | start => exact ⟨e, he, hv⟩
  | pass hle =>
    have hlater := s.world.service.store.contents.live?_later
      (s.world.service.face.read_mono hle) k
    exact ⟨e, (Option.filter_eq_some_iff.mp (hlater.symm.trans he)).1, hv⟩

/-- A key that nobody obtains gets no entry in a registry. -/
theorem Apt.registered_step (hs : Apt s) (hplaced : Placed s) {m : Nat} {k : String} {e : Renewal}
    (hstep : Step turn s c s') (huntaken : Untaken k s c s')
    (he : s'.world.registered? m k = some e) : s.world.registered? m k = some e := by
  obtain hold | ⟨n, l, r, rfl, hwins, -, hkey, -⟩ := hplaced.registered_cases hstep he
  · exact hold
  · obtain ⟨p, bid, service, w, hp, hbid, -, hheld, rfl⟩ := hwins.held hplaced
    have hacquired : p.answer? s.world s.now = some .acquired := by
      obtain ⟨p', w', records, hp', hturn, -⟩ := hwins
      cases hp.symm.trans hp'
      have heffect := turn_isEffect s.now (hs.processes _ _ hp) hs.wrap
      rw [hturn] at heffect
      exact heffect.2.2 (by simp)
    obtain ⟨call, hcall⟩ : ∃ call, p.call? = some call := by
      cases hcall : p.call? with
      | none => simp [Process.answer?, hcall] at hacquired
      | some call => exact ⟨call, rfl⟩
    have hrequest := (hs.processes _ _ hp).key_of_bid hcall hbid
    refine absurd ⟨hacquired, call, hcall, hrequest.trans ?_⟩ (huntaken.2 p hp)
    rw [← hkey, hheld.renewal]

end Lock

end Leasehold
