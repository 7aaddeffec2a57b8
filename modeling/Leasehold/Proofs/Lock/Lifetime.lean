import Leasehold.Proofs.Lock.Renewals
import Leasehold.Proofs.Lock.Timeline

/-!
# How long a lease lives

With one lock manager, and calls that take no time, nothing but the failures of
its refreshes and the moment at which it is cancelled bears on how long a lease
lives, if nobody releases its key and nobody else takes it.  `lives_exactly` says
until when the key has the token of the owner, which refreshes are made, and when
the key is being renewed.

No other renewal can interfere: whatever was registered for the key before has
been cancelled by the acquisition (`Sole`), and a renewal that is cancelled does
not refresh.
-/

namespace Leasehold.Lock

open Simulation

/-! ## The course of a lease -/

/-- The course of a renewal whose refreshes take no time.  It may be cancelled
after the tick of a number, before the next one. -/
def Renewing.scheduled (r : Renewing) (fails : Nat → Bool) (stop? : Option Nat) : Course where
  fails := fails
  delay _ := 0
  last :=
    match stop? with
    | none => r.budget
    | some m => min r.budget m

/-- The renewal is not cancelled, or only after the tick of the given number and
before the next one. -/
def StopsIn (l : Lease) (r : Renewing) (s : Locks) : Option Nat → Prop
  | none => s.world.tokens.isCancelled r.token = false
  | some m =>
      (s.world.tokens.isCancelled r.token = true → l.tick m < s.now.nanos) ∧
        (l.tick (m + 1) ≤ s.now.nanos → s.world.tokens.isCancelled r.token = true)

instance (l : Lease) (r : Renewing) (s : Locks) (stop? : Option Nat) :
    Decidable (StopsIn l r s stop?) := by
  cases stop? <;> (unfold StopsIn; infer_instance)

/-- Calls take no time, the lease is not released, nobody else takes its key, and
the refreshes of its renewal fail as their numbers say. -/
def Uncontended (fails : Nat → Bool) (stop? : Option Nat) (l : Lease) (r : Renewing) (own : Nat) :
    Rule World Process :=
  fun s c s' =>
    Serialised s c s' ∧ Prompt turn s c s' ∧ StopsIn l r s stop? ∧
      match c with
      | .turn i => ∀ p ∈ s.process? i, ¬ p.Releases l.key l.owner ∧
          ¬ p.Takes s.world s.now l.key ∧
          (i = own → (r.scheduled fails stop?).Meets s.world.service p)
      | .start _ => True
      | .pass _ => True

instance (fails : Nat → Bool) (stop? : Option Nat) (l : Lease) (r : Renewing) (own : Nat)
    (s s' : Locks) (c : Choice Process) : Decidable (Uncontended fails stop? l r own s c s') :=
  match c with
  | .turn i => inferInstanceAs (Decidable (_ ∧ _ ∧ _ ∧ ∀ p ∈ s.process? i, _ ∧ _ ∧ (i = own → _)))
  | .start _ => inferInstanceAs (Decidable (_ ∧ _ ∧ _ ∧ True))
  | .pass _ => inferInstanceAs (Decidable (_ ∧ _ ∧ _ ∧ True))

variable {calls : List Finished} {l : Lease} {r : Renewing} {own n : Nat} {x : Course}
  {fails : Nat → Bool} {stop? : Option Nat} {s s' : Locks} {c : Choice Process}

theorem Renewing.scheduled_last_le (r : Renewing) (fails : Nat → Bool) (stop? : Option Nat) :
    (r.scheduled fails stop?).last ≤ r.budget := by
  cases stop? with
  | none => exact Nat.le_refl _
  | some m => exact Nat.min_le_left _ _

theorem Renewing.scheduled_fits (fails : Nat → Bool) (stop? : Option Nat)
    (hduration : l.acquiredAt.nanos + l.duration.nanos < 9223372036854775808000000000)
    (htick : l.tick (r.budget + 1) < 9223372036854775808000000000) :
    (r.scheduled fails stop?).Fits l r := by
  have hlast := r.scheduled_last_le fails stop?
  refine ⟨hlast, fun n _ _ => Nat.zero_le _, hduration, ?_, fun n _ hn => ?_⟩
  · exact Nat.lt_of_le_of_lt (l.tick_le (Nat.succ_le_succ hlast)) htick
  · rw [l.lands_eq]
    show l.tick n + l.renewalInterval.nanos < _
    rw [← l.tick_succ]
    exact Nat.lt_of_le_of_lt (l.tick_le (Nat.succ_le_succ (Nat.le_trans hn hlast))) htick

/-- A renewal is cancelled only after the tick of its last refresh. -/
theorem StopsIn.uncancelled (h : StopsIn l r s stop?)
    (hcancelled : s.world.tokens.isCancelled r.token = true) :
    l.tick (r.scheduled fails stop?).last < s.now.nanos := by
  cases stop? with
  | none => rw [h] at hcancelled; cases hcancelled
  | some m => exact Nat.lt_of_le_of_lt (l.tick_le (Nat.min_le_right _ _)) (h.1 hcancelled)

/-- A renewal that makes fewer refreshes than its budget allows has been cancelled
by the next tick. -/
theorem StopsIn.cancelled (h : StopsIn l r s stop?)
    (hlast : (r.scheduled fails stop?).last < r.budget)
    (hnow : l.tick ((r.scheduled fails stop?).last + 1) ≤ s.now.nanos) :
    s.world.tokens.isCancelled r.token = true := by
  cases stop? with
  | none => exact absurd hlast (Nat.lt_irrefl _)
  | some m =>
    have heq : (r.scheduled fails (some m)).last = m := by
      simp only [Renewing.scheduled] at hlast ⊢
      omega
    rw [heq] at hnow
    exact h.2 hnow

/-! ## The only renewal of a key -/

/-- No renewal is registered for the key but the one of a number, and that one
only until it is over. -/
def Sole (s : Locks) (own : Nat) (r : Renewing) : Prop :=
  ∀ e, s.world.registered? r.manager r.key = some e →
    e.generation = r.generation ∧ ∃ stage, s.process? own = some (.renewing r stage)

/-- Only a win of the key registers another renewal. -/
theorem Sole.step (h : Sole s own r) (hs : Sound s) (hstep : Step turn s c s')
    (huntaken : ∀ i, c.IsTurn i → ∀ p ∈ s.process? i, ¬ p.Takes s.world s.now r.key) :
    Sole s' own r := by
  intro e he
  obtain hold | ⟨i, l, q, rfl, hwins, -, hkey, -⟩ := hs.placed.registered_cases hstep he
  · obtain ⟨hgeneration, stage, hstage⟩ := h e hold
    exact ⟨hgeneration, hs.placed.goes_on_of_kept hstage hstep he hgeneration⟩
  · obtain ⟨p, hp, htakes⟩ := hwins.takes hs
    exact absurd (hkey ▸ htakes) (huntaken i rfl p hp)

/-- The renewal of a win is the only one. -/
theorem Wins.sole {i : Nat} (h : Wins s i l r s') (hs : Sound s) :
    Sole s' s.processes.length r := by
  intro e he
  rw [h.registered hs.placed, Option.some.injEq] at he
  subst he
  exact ⟨rfl, _, h.process?⟩

/-- No other renewal refreshes the key. -/
theorem Sole.unrefreshed (h : Sole s own r) (hserviced : Serviced s own r) (hr : r.manager = 0)
    {i : Nat} {p : Process} (hi : i ≠ own) (hp : s.process? i = some p) :
    ¬ p.Refreshes r.key := by
  intro hrefreshes
  cases p with
  | action | later | attempting | asking | resting | trying | releasing | store => cases hrefreshes
  | renewing q stage =>
    cases stage with
    | starting | waiting => cases hrefreshes
    | refreshing cycle next? e =>
      have hkey : q.key = r.key := hrefreshes
      have hmanager : q.manager = r.manager := (hserviced.manager_eq hp).trans hr.symm
      have huncancelled := hserviced.serial.uncancelled _ _ _ _ _ hp
      obtain ⟨owner, hregistered⟩ := hserviced.registry.registered _ _ _ hp huncancelled
      rw [hmanager, hkey] at hregistered
      obtain ⟨hgeneration, stage, hstage⟩ := h _ hregistered
      exact hi (hserviced.registry.distinct _ _ _ _ _ _ hp hstage hmanager hgeneration)

/-! ## Settled systems -/

/-- When all processes wait, a renewal whose refreshes take no time waits for its
next tick, or it is over. -/
theorem Reached.settled (h : Reached l r own x s n) (hdelay : ∀ m, x.delay m = 0)
    (hsettled : Settled turn s) :
    (∃ tick, s.process? own = some (.renewing r (.waiting (n + 1) (some tick))) ∧
      l.tick n ≤ s.now.nanos ∧ s.now.nanos < l.tick (n + 1) ∧ n ≤ x.last ∧ n + 1 ≤ r.budget ∧
      s.world.tokens.isCancelled r.token = false) ∨
    (s.process? own = none ∧ n = x.last ∧ l.tick n ≤ s.now.nanos ∧
      (l.tick r.budget ≤ s.now.nanos ∨ s.world.tokens.isCancelled r.token = true)) := by
  refine h.goes_on_or_ended.imp_left fun ⟨p, hp⟩ => ?_
  obtain ⟨due?, hturn⟩ := hsettled _ _ hp
  cases h.awaiting hp hturn with
  | tick hp htick hle hlt hn hbudget huncancelled =>
    refine ⟨_, hp, hle, ?_, hn, hbudget, huncancelled⟩
    rw [← htick]
    exact hlt
  | @landing _ due _ _ hstarted hdue hlt hle =>
    -- A refresh that takes no time is not still to come.
    have hlt' : s.now.nanos < due.nanos := hlt
    rw [hdue, l.lands_eq, hdelay, Nat.add_zero, ← hstarted] at hlt'
    exact absurd hle (Nat.not_le.mpr hlt')

/-- When all processes wait, a refresh has been made at every tick so far, up to
the last one. -/
theorem Reached.count (h : Reached l r own x s n) (hdelay : ∀ m, x.delay m = 0)
    (hsettled : Settled turn s) (hinterval : 0 < l.renewalInterval.nanos) :
    n = min x.last ((s.now.nanos - l.acquiredAt.nanos) / l.renewalInterval.nanos) := by
  obtain ⟨_, -, hle, hlt, hn, -⟩ | ⟨-, rfl, hle, -⟩ := h.settled hdelay hsettled
  · have hdiv : (s.now.nanos - l.acquiredAt.nanos) / l.renewalInterval.nanos = n := by
      simp only [Lease.tick] at hle hlt
      exact Nat.div_eq_of_lt_le (by omega) (by omega)
    rw [hdiv, Nat.min_eq_right hn]
  · refine (Nat.min_eq_left ?_).symm
    rw [Nat.le_div_iff_mul_le hinterval]
    simp only [Lease.tick] at hle
    omega

/-- When all processes wait, the key is being renewed until the last tick that the
budget allows, unless the renewal was cancelled. -/
theorem Reached.renewing_iff (h : Reached l r own x s n) (hdelay : ∀ m, x.delay m = 0)
    (hsettled : Settled turn s) (hregistry : RegistrySound s) (hsole : Sole s own r) :
    (s.world.manager r.manager).renewing r.key = true ↔
      s.now.nanos < l.tick r.budget ∧ s.world.tokens.isCancelled r.token = false := by
  have hrenewing : (s.world.manager r.manager).renewing r.key = true ↔
      ∃ e, s.world.registered? r.manager r.key = some e := Option.isSome_iff_exists
  rw [hrenewing]
  obtain ⟨_, hp, -, hlt, -, hbudget, huncancelled⟩ | ⟨hp, -, -, hend⟩ := h.settled hdelay hsettled
  · obtain ⟨owner, hregistered⟩ := hregistry.registered _ _ _ hp huncancelled
    exact iff_of_true ⟨_, hregistered⟩ ⟨Nat.lt_of_lt_of_le hlt (l.tick_le hbudget), huncancelled⟩
  · refine iff_of_false (fun ⟨e, he⟩ => ?_) fun ⟨hlt, huncancelled⟩ => ?_
    · obtain ⟨-, stage, hstage⟩ := hsole e he
      rw [hp] at hstage
      cases hstage
    · obtain hbudget | hcancelled := hend
      · exact absurd hlt (Nat.not_lt.mpr hbudget)
      · rw [hcancelled] at huncancelled
        cases huncancelled

/-! ## Runs -/

theorem Uncontended.untaken (h : Uncontended fails stop? l r own s c s') {i : Nat}
    (hc : c.IsTurn i) : ∀ p ∈ s.process? i, ¬ p.Takes s.world s.now l.key := by
  intro p hp
  cases c with
  | start | pass => cases hc
  | turn j =>
    cases hc
    exact (h.2.2.2 p hp).2.1

theorem Uncontended.follows (h : Uncontended fails stop? l r own s c s')
    (hserviced : Serviced s own r) (hsole : Sole s own r) (hkey : r.key = l.key)
    (hmanager : r.manager = 0) : Follows l r own (r.scheduled fails stop?) s c s' where
  admitted := h.1.1
  prompt := h.2.1
  course hc p hp := by
    cases c with
    | start | pass => cases hc
    | turn i =>
      cases hc
      exact (h.2.2.2 p hp).2.2 rfl
  uncancelled := h.2.2.1.uncancelled
  cancelled := h.2.2.1.cancelled
  unreleased i hc p hp := by
    cases c with
    | start | pass => cases hc
    | turn j =>
      cases hc
      exact (h.2.2.2 p hp).1
  unrefreshed i _ hi p hp := by
    rw [← hkey]
    exact hsole.unrefreshed hserviced hmanager hi hp
  untaken _ hc := h.untaken hc

/-- Nobody interferes with a lease all along a run. -/
theorem sole_of_run {s₁ s₂ : Locks} (hserviced : Serviced s₁ own r) (hsole : Sole s₁ own r)
    (hkey : r.key = l.key) (hmanager : r.manager = 0)
    (hrun : Run turn (Uncontended fails stop? l r own) s₁ s₂) :
    Serviced s₂ own r ∧ Sole s₂ own r ∧
      Run turn (Follows l r own (r.scheduled fails stop?)) s₁ s₂ := by
  have hstep : ∀ {s c s'}, Serviced s own r ∧ Sole s own r → Step turn s c s' →
      Uncontended fails stop? l r own s c s' → Serviced s' own r ∧ Sole s' own r := by
    intro s c s' ⟨hserviced, hsole⟩ hstep hrule
    refine ⟨hserviced.step hstep hrule.1, ?_⟩
    refine hsole.step hserviced.sound hstep fun i hc => ?_
    rw [hkey]
    exact hrule.untaken hc
  obtain ⟨hserviced₂, hsole₂⟩ := hrun.preserves hstep ⟨hserviced, hsole⟩
  refine ⟨hserviced₂, hsole₂, hrun.under hstep (fun ⟨hserviced, hsole⟩ _ hrule => ?_)
    ⟨hserviced, hsole⟩⟩
  exact hrule.follows hserviced hsole hkey hmanager

/-! ## The main theorem -/

/-- With one lock manager and calls that take no time, a lease that is not
released and whose key nobody else takes keeps its key up to the deadline that
its refreshes leave, and no longer.  They are made at the ticks of the renewal,
each for an interval: as many as the budget allows or, if it is cancelled, as
many as there were ticks before.  When all processes wait, the key is being
renewed if the last tick that the budget allows is still to come and the renewal
was not cancelled.  If no refresh fails, the deadline is an interval after the
last one, but not before the end of the lease. -/
theorem lives_exactly {s₀ s s₁ s₂ : Locks} {i : Nat} {l : Lease} {r : Renewing}
    {fails : Nat → Bool} {stop? : Option Nat} (hfresh : Fresh s₀)
    (hmanagers : s₀.world.managers.length = 1) (hrun : Run turn Serialised s₀ s)
    (hwins : Wins s i l r s₁)
    (hduration : l.acquiredAt.nanos + l.duration.nanos < 9223372036854775808000000000)
    (htick : l.tick (r.budget + 1) < 9223372036854775808000000000)
    (hrun' : Run turn (Uncontended fails stop? l r s.processes.length) s₁ s₂) :
    let x := r.scheduled fails stop?
    (∃ seconds, IsWritten l.duration l.renewalInterval seconds) ∧
    s₂.world.service.value? s₂.now l.key =
      (if s₂.now.nanos ≤ l.deadline x x.last then some l.owner else none) ∧
    (∃ n ≤ x.last,
      refreshCalls l.key s₂.world.service.journal =
        refreshCalls l.key s₁.world.service.journal ++
          (List.range n).map (fun j => (l.tick (j + 1), l.renewalInterval)) ∧
      (Settled turn s₂ →
        n = min x.last ((s₂.now.nanos - l.acquiredAt.nanos) / l.renewalInterval.nanos))) ∧
    (Settled turn s₂ → ((s₂.world.manager 0).renewing l.key = true ↔
      s₂.now.nanos < l.tick r.budget ∧ s₂.world.tokens.isCancelled r.token = false)) ∧
    ((∀ n, fails n = false) → l.deadline x x.last =
      l.acquiredAt.nanos + max l.duration.nanos ((x.last + 1) * l.renewalInterval.nanos)) := by
  intro x
  have hs : Sound s := (hfresh.run_serialised hmanagers hrun).1
  obtain ⟨-, -, hr, -, -⟩ := hwins.facts hs
  have hserviced := hfresh.serviced hmanagers hrun hwins
  have hmanager : r.manager = 0 := hserviced.manager_eq hwins.process?
  have hfits : x.Fits l r := Renewing.scheduled_fits fails stop? hduration htick
  obtain ⟨hserviced₂, hsole₂, hfollows⟩ :=
    sole_of_run hserviced (hwins.sole hs) hr.key hmanager hrun'
  obtain ⟨hs₂, n, htimeline⟩ := timeline_of_run hs hwins hfits hfollows
  obtain ⟨seconds, hwritten⟩ := hr.isWritten
  have hdelay : ∀ m, x.delay m = 0 := fun _ => rfl
  refine ⟨⟨seconds, hwritten⟩, htimeline.value? hs₂ hr hfits, ⟨n, htimeline.reached.before_next.1,
    htimeline.journal, fun hsettled => ?_⟩, fun hsettled => ?_, fun hfails => ?_⟩
  · exact htimeline.reached.count hdelay hsettled hwritten.interval_pos
  · have hiff := htimeline.reached.renewing_iff hdelay hsettled hserviced₂.registry hsole₂
    rwa [hmanager, hr.key] at hiff
  · have hfails : x.fails = fun _ => false := funext hfails
    rw [Lease.deadline, hfails]
    exact congrArg (l.acquiredAt.nanos + ·) (expiry_of_prompt hr.interval_le hr.duration_le)

/-- A key is acquired for three seconds, so it is refreshed every two.  The second
refresh comes at the very deadline that the first one has left, and the third one
fails: the key is held for six seconds. -/
theorem lives_exactly_of_failure :
    ∃ s s₁ s₂ l r, Fresh single ∧ single.world.managers.length = 1 ∧
      Run turn Serialised single s ∧ Wins s 0 l r s₁ ∧
      l.acquiredAt.nanos + l.duration.nanos < 9223372036854775808000000000 ∧
      l.tick (r.budget + 1) < 9223372036854775808000000000 ∧
      Run turn (Uncontended (fun n => n = 3) none l r s.processes.length) s₁ s₂ ∧
      s₂.now.nanos = 6000000000 ∧ s₂.world.service.value? s₂.now l.key = some l.owner := by
  obtain ⟨s, s₁, s₂, l, r, hrun, hwins, hduration, hinterval, hbudget, hat, hrun', hnow⟩ :
      ∃ s s₁ s₂ l r, Run turn Serialised single s ∧ Wins s 0 l r s₁ ∧
        l.duration.nanos = 3000000000 ∧ l.renewalInterval.nanos = 2000000000 ∧ r.budget = 3 ∧
        l.acquiredAt.nanos = 0 ∧
        Run turn (Uncontended (fun n => n = 3) none l r s.processes.length) s₁ s₂ ∧
        s₂.now.nanos = 6000000000 :=
    ⟨_, _, _, _, _,
      Run.of_follow? [.start (.action (.tryAcquire 0 "k" "a" (.ofSeconds 3) "")), .turn 0] rfl,
      ⟨_, _, _, rfl, rfl, rfl⟩, rfl, rfl, rfl, rfl,
      Run.of_isSome [.turn 1, .pass { nanos := 2000000000 }, .turn 1, .turn 1,
        .pass { nanos := 4000000000 }, .turn 1, .turn 1,
        .start (.action (.store (.refreshFails true))), .turn 2, .turn 2,
        .pass { nanos := 6000000000 }, .turn 1, .turn 1, .turn 1] (by decide +kernel),
      by decide +kernel⟩
  have hfirst : l.acquiredAt.nanos + l.duration.nanos < 9223372036854775808000000000 := by omega
  have hlast : l.tick (r.budget + 1) < 9223372036854775808000000000 := by
    rw [Lease.tick, hat, hinterval, hbudget]
    omega
  obtain ⟨-, hvalue, -⟩ := lives_exactly fresh_single rfl hrun hwins hfirst hlast hrun'
  have hdeadline : ∀ x : Course, x = ⟨fun n => n = 3, fun _ => 0, 3⟩ →
      s₂.now.nanos ≤ l.deadline x x.last := by
    rintro _ rfl
    rw [hnow, Lease.deadline, hat, hduration, hinterval]
    decide
  rw [if_pos (hdeadline _ (by rw [Renewing.scheduled, hbudget]))] at hvalue
  exact ⟨s, s₁, s₂, l, r, fresh_single, rfl, hrun, hwins, hfirst, hlast, hrun', hnow, hvalue⟩

/-- A renewal that is cancelled before its first tick makes no refresh, but until
then the key is being renewed: it does not stop when the last refresh is over. -/
theorem renewing_until_cancelled :
    ¬ ∀ {s₀ s s₁ s₂ s₃ : Locks} {i m : Nat} {l : Lease} {r : Renewing} {fails : Nat → Bool},
      Fresh s₀ → s₀.world.managers.length = 1 → Run turn Serialised s₀ s → Wins s i l r s₁ →
      Run turn (Uncontended fails (some m) l r s.processes.length) s₁ s₂ →
      Run turn (Uncontended fails (some m) l r s.processes.length) s₂ s₃ →
      s₃.world.tokens.isCancelled r.token = true → l.tick m < s₃.now.nanos →
      s₃.now.nanos < l.tick (m + 1) →
      Settled turn s₂ → l.tick (min r.budget m) ≤ s₂.now.nanos →
      (s₂.world.manager 0).renewing l.key = false := by
  intro h
  obtain ⟨s, s₁, s₂, s₃, l, r, hrun, hwins, hrun', hrun'', hcancelled, hlt, hlt', hprompt, hle,
      hrenewing⟩ :
      ∃ s s₁ s₂ s₃ l r, Run turn Serialised single s ∧ Wins s 0 l r s₁ ∧
        Run turn (Uncontended (fun _ => false) (some 0) l r s.processes.length) s₁ s₂ ∧
        Run turn (Uncontended (fun _ => false) (some 0) l r s.processes.length) s₂ s₃ ∧
        s₃.world.tokens.isCancelled r.token = true ∧ l.tick 0 < s₃.now.nanos ∧
        s₃.now.nanos < l.tick 1 ∧ Prompt turn s₂ (.pass s₂.now) s₂ ∧
        l.tick (min r.budget 0) ≤ s₂.now.nanos ∧ (s₂.world.manager 0).renewing l.key = true :=
    ⟨_, _, _, _, _, _,
      Run.of_follow? [.start (.action (.tryAcquire 0 "k" "a" (.ofSeconds 2) "root")), .turn 0] rfl,
      ⟨_, _, _, rfl, rfl, rfl⟩,
      Run.of_isSome [.turn 1] (by decide +kernel),
      Run.of_isSome [.pass { nanos := 500000000 }, .start (.action (.cancel "root")), .turn 2]
        (by decide +kernel),
      by decide +kernel, by decide +kernel, by decide +kernel, by decide +kernel,
      by decide +kernel, by decide +kernel⟩
  have hidle := h fresh_single rfl hrun hwins hrun' hrun'' hcancelled hlt hlt'
    (Prompt.settled hprompt) hle
  rw [hrenewing] at hidle
  cases hidle

end Leasehold.Lock
