import Leasehold.Proofs.Lock.Timeline

/-!
# Refreshes that take their time

The ticks of a renewal are fixed, but a refresh takes effect only some time after
its tick.  Each one lets the entry live for one interval more, counted from when
it takes effect.  So it is not enough that every refresh is quick enough for the
first one to come in time: if a refresh is slower than the one before, it comes
after the deadline, and the entry has expired.

`holds_iff_steady` says that the holder keeps the key up to the last tick of the
renewal if and only if no refresh but the last is slower than the one before it.
Others may bid for the key all the time, and whoever does takes it once the entry
has expired (`TakenSince`).
-/

namespace Leasehold.Lock

open Simulation

/-- The course of a renewal that spends its budget, and none of whose refreshes
fails. -/
def Renewing.course (r : Renewing) (delay : Nat → Nat) : Course where
  fails _ := false
  delay := delay
  last := r.budget

/-- The lease is not released, its renewal is not cancelled, and no other renewal
refreshes the key.  Each refresh of the renewal reaches the store, does not fail
there and takes as long as its number says. -/
def Unhindered (l : Lease) (r : Renewing) (own : Nat) (delay : Nat → Nat) : Rule World Process :=
  fun s c s' =>
    Admitted s c s' ∧ Prompt turn s c s' ∧ s.world.tokens.isCancelled r.token = false ∧
      match c with
      | .turn i => ∀ p ∈ s.process? i, ¬ p.Releases l.key l.owner ∧
          if i = own then (r.course delay).Meets s.world.service p else ¬ p.Refreshes l.key
      | .start _ => True
      | .pass _ => True

instance (l : Lease) (r : Renewing) (own : Nat) (delay : Nat → Nat) (s s' : Locks)
    (c : Choice Process) : Decidable (Unhindered l r own delay s c s') :=
  match c with
  | .turn i =>
      inferInstanceAs (Decidable (_ ∧ _ ∧ _ ∧ ∀ p ∈ s.process? i, _ ∧ if i = own then _ else _))
  | .start _ => inferInstanceAs (Decidable (_ ∧ _ ∧ _ ∧ True))
  | .pass _ => inferInstanceAs (Decidable (_ ∧ _ ∧ _ ∧ True))

/-- Somebody has taken a key since certain calls were answered. -/
def TakenSince (calls : List Finished) (k : String) (s : Locks) : Prop :=
  ∃ since, s.world.service.journal = calls ++ since ∧
    ∃ f ∈ since, f.request.key = k ∧ f.answer = .acquired

/-- Refreshes that are quick enough for the first one to come in time. -/
structure Quick (l : Lease) (r : Renewing) (delay : Nat → Nat) : Prop where
  budget : 1 ≤ r.budget
  delay_le : ∀ n, 1 ≤ n → n ≤ r.budget →
    delay n + l.renewalInterval.nanos ≤ l.duration.nanos
  limit : l.tick r.budget + l.duration.nanos < 9223372036854775808000000000

/-- A lease is on its timeline, or its key has been taken; if the refreshes are
steady, then only after the last tick. -/
structure Tracked (calls : List Finished) (l : Lease) (r : Renewing) (own : Nat)
    (delay : Nat → Nat) (s : Locks) : Prop where
  journal : ∃ since, s.world.service.journal = calls ++ since
  timeline : (TakenSince calls l.key s ∧
      (Steady delay r.budget → l.tick r.budget < s.now.nanos)) ∨
    ∃ n, Timeline calls l r own (r.course delay) s n

variable {calls : List Finished} {l : Lease} {r : Renewing} {own n : Nat} {delay : Nat → Nat}
  {s s' : Locks} {c : Choice Process}

namespace Quick

/-- A refresh takes no longer than an interval. -/
theorem delay_le_interval (h : Quick l r delay) (hr : r.For l) (n : Nat) (hn : 1 ≤ n)
    (hlast : n ≤ r.budget) : delay n ≤ l.renewalInterval.nanos := by
  have hduration := hr.duration_le
  have hdelay := h.delay_le n hn hlast
  omega

theorem fits (h : Quick l r delay) (hr : r.For l) : (r.course delay).Fits l r := by
  have hinterval := hr.interval_le
  have hlimit := h.limit
  have hat := l.tick_le (Nat.zero_le r.budget)
  have hzero : l.tick 0 = l.acquiredAt.nanos := by simp [Lease.tick]
  refine ⟨Nat.le_refl _, h.delay_le_interval hr, ?_, ?_, fun n hn hlast => ?_⟩
  · omega
  · rw [l.tick_succ]
    show l.tick r.budget + _ < _
    omega
  · have hdelay := h.delay_le n hn hlast
    have htick := l.tick_le hlast
    rw [l.lands_eq]
    show l.tick n + delay n + _ < _
    have hbudget : l.tick (r.course delay).last = l.tick r.budget := rfl
    omega

/-- The first refresh comes in time. -/
theorem first_le (h : Quick l r delay) :
    landing l.renewalInterval.nanos delay 1 ≤ l.duration.nanos := by
  have hdelay := h.delay_le 1 (Nat.le_refl 1) h.budget
  rw [landing, Nat.one_mul]
  omega

/-- Steady refreshes move the deadline beyond the last tick. -/
theorem tick_le_deadline (h : Quick l r delay) (hr : r.For l) (hsteady : Steady delay r.budget) :
    l.tick r.budget ≤ l.deadline (r.course delay) (r.course delay).last :=
  Nat.add_le_add_left (hsteady.le_expiry hr.interval_le hr.duration_le (h.delay_le_interval hr)
    h.first_le h.budget) _

/-- Else the last deadline is before the last tick. -/
theorem deadline_lt_tick (h : Quick l r delay) (hr : r.For l) (hsteady : ¬ Steady delay r.budget) :
    l.deadline (r.course delay) (r.course delay).last < l.tick r.budget :=
  Nat.add_lt_add_left (expiry_lt_of_not_steady (h.delay_le_interval hr) h.first_le hsteady) _

end Quick

/-! ## The key up to the last tick -/

theorem Unhindered.follows (h : Unhindered l r own delay s c s')
    (huntaken : ∀ i, c.IsTurn i → ∀ p ∈ s.process? i, ¬ p.Takes s.world s.now l.key) :
    Follows l r own (r.course delay) s c s' := by
  obtain ⟨hadmitted, hprompt, huncancelled, hturn⟩ := h
  refine ⟨hadmitted, hprompt, fun hc p hp => ?_, fun hcancelled => ?_, fun hlast => ?_,
    fun i hc p hp => ?_, fun i hc hi p hp => ?_, huntaken⟩
  · cases c with
    | start | pass => cases hc
    | turn i =>
      cases hc
      have hmeets := (hturn p hp).2
      rwa [if_pos rfl] at hmeets
  · rw [huncancelled] at hcancelled
    cases hcancelled
  · exact absurd hlast (Nat.lt_irrefl r.budget)
  · cases c with
    | start | pass => cases hc
    | turn j =>
      cases hc
      exact (hturn p hp).1
  · cases c with
    | start | pass => cases hc
    | turn j =>
      cases hc
      have hrefreshes := (hturn p hp).2
      rwa [if_neg hi] at hrefreshes

/-- Calls that have been answered stay in the journal. -/
theorem Sound.journal_step (hs : Sound s) (hstep : Step turn s c s') :
    ∃ since, s'.world.service.journal = s.world.service.journal ++ since := by
  cases hs.doing hstep with
  | start | pass => exact ⟨[], (List.append_nil _).symm⟩
  | deed hp hdeed =>
    obtain ⟨-, -, hkept⟩ | ⟨_, _, -, -, hserved, -⟩ := hdeed.kept_or_served (hs.fit _ _ hp)
    · exact ⟨[], by rw [System.world_advance, hkept.journal, List.append_nil]⟩
    · exact ⟨_, hserved.journal⟩

/-- Whoever takes the key finds it free, and his call is answered. -/
theorem Step.of_takes {i : Nat} {p : Process} (hs : Sound s) (hstep : Step turn s (.turn i) s')
    (hp : s.process? i = some p) (htakes : p.Takes s.world s.now l.key) :
    s.world.service.value? s.now l.key = none ∧
      ∃ f, s'.world.service.journal = s.world.service.journal ++ [f] ∧ f.request.key = l.key ∧
        f.answer = .acquired := by
  obtain ⟨hacquired, bid, hbid, hkey⟩ := htakes
  cases hs.doing hstep with
  | @deed _ p' w' next? started lease? hp' hdeed =>
    rw [hp] at hp'
    cases hp'
    have hfit := hs.fit _ _ hp
    obtain ⟨-, hnone, -⟩ | ⟨call, a, hcall, hanswer, hserved, -⟩ := hdeed.kept_or_served hfit
    · rw [hacquired] at hnone
      cases hnone
    rw [hacquired] at hanswer
    cases hanswer
    have hrequest := hfit.request_of_bid hcall hbid
    refine ⟨?_, _, hserved.journal, by rw [hrequest]; exact hkey, rfl⟩
    have hentry := hserved.entry
    rw [hrequest, hs.face] at hentry
    obtain ⟨e, he, -⟩ | ⟨hanswer, -⟩ := hentry
    · cases he
    · rw [Service.value?_eq, ← hkey]
      cases hlive : s.world.service.live? s.now bid.key with
      | none => rfl
      | some e => simp [Request.serve, Request.key, hlive] at hanswer

theorem Tracked.step (h : Tracked calls l r own delay s) (hs : Sound s) (hown : IsRenewal s own r)
    (hr : r.For l) (hquick : Quick l r delay) (hstep : Step turn s c s')
    (hrule : Unhindered l r own delay s c s') : Tracked calls l r own delay s' := by
  obtain ⟨since, hsince⟩ := h.journal
  obtain ⟨more, hmore⟩ := hs.journal_step hstep
  have hjournal : s'.world.service.journal = calls ++ (since ++ more) := by
    rw [hmore, hsince, List.append_assoc]
  refine ⟨⟨_, hjournal⟩, ?_⟩
  obtain ⟨⟨since', hsince', f, hf, htaken⟩, hafter⟩ | ⟨n, htimeline⟩ := h.timeline
  case inl =>
    refine .inl ⟨⟨since' ++ more, ?_, f, List.mem_append_left _ hf, htaken⟩, fun hsteady => ?_⟩
    · rw [hmore, hsince', List.append_assoc]
    · exact Nat.lt_of_lt_of_le (hafter hsteady) hstep.now_le
  by_cases htakes : ∃ i, c.IsTurn i ∧ ∃ p ∈ s.process? i, p.Takes s.world s.now l.key
  case neg =>
    simp only [not_exists, not_and] at htakes
    exact .inr (htimeline.step hs hown hr (hquick.fits hr) hstep (hrule.follows htakes))
  obtain ⟨i, hc, p, hp, htakes⟩ := htakes
  cases c with
  | start | pass => cases hc
  | turn j =>
    cases hc
    obtain ⟨hnone, f, hf, hkey, hacquired⟩ := Step.of_takes hs hstep hp htakes
    refine .inl ⟨⟨since ++ [f], ?_, f, by simp, hkey, hacquired⟩, fun hsteady => ?_⟩
    · rw [hf, hsince, List.append_assoc]
    · have hvalue := htimeline.value? hs hr (hquick.fits hr)
      rw [hnone] at hvalue
      refine Nat.lt_of_lt_of_le (Nat.lt_of_not_le fun hle => ?_) hstep.now_le
      rw [if_pos (Nat.le_trans hle (hquick.tick_le_deadline hr hsteady))] at hvalue
      cases hvalue

theorem tracked_of_run {s₁ s₂ : Locks} {i : Nat} (hs : Sound s) (hwins : Wins s i l r s₁)
    (hquick : Quick l r delay)
    (hrun : Run turn (Unhindered l r s.processes.length delay) s₁ s₂) :
    Sound s₂ ∧ Tracked s₁.world.service.journal l r s.processes.length delay s₂ := by
  obtain ⟨-, -, hr, -, -⟩ := hwins.facts hs
  refine hwins.preserves hs (fun hrule => hrule.1) (fun ht hown h hstep hrule => ?_) ?_ hrun
  · exact h.step ht hown hr hquick hstep hrule
  · exact ⟨⟨[], (List.append_nil _).symm⟩, .inr ⟨0, hwins.timeline hs (hquick.fits hr)⟩⟩

/-! ## The main theorem -/

/-- A lease that is neither released nor cancelled, and whose refreshes are each
quick enough for the first one to come in time, holds its key up to the last tick
of its renewal if no refresh but the last is slower than the one before it.  Else
it does not: by then the entry has expired, and the key is free unless somebody
else has taken it. -/
theorem holds_iff_steady {s₀ s s₁ s₂ : Locks} {i : Nat} {l : Lease} {r : Renewing}
    {delay : Nat → Nat} (hfresh : Fresh s₀) (hrun : Run turn Admitted s₀ s)
    (hwins : Wins s i l r s₁) (hquick : Quick l r delay)
    (hrun' : Run turn (Unhindered l r s.processes.length delay) s₁ s₂) :
    (∃ seconds, IsWritten l.duration l.renewalInterval seconds) ∧
    (Steady delay r.budget → s₂.now.nanos ≤ l.tick r.budget →
      s₂.world.service.value? s₂.now l.key = some l.owner) ∧
    (¬ Steady delay r.budget → l.tick r.budget ≤ s₂.now.nanos →
      TakenSince s₁.world.service.journal l.key s₂ ∨
        s₂.world.service.value? s₂.now l.key = none) := by
  have hs : Sound s := hfresh.sound.run id hrun
  obtain ⟨-, -, hr, -, -⟩ := hwins.facts hs
  obtain ⟨hs₂, htracked⟩ := tracked_of_run hs hwins hquick hrun'
  refine ⟨hr.isWritten, fun hsteady hnow => ?_, fun hsteady hnow => ?_⟩
  · obtain ⟨-, hafter⟩ | ⟨n, htimeline⟩ := htracked.timeline
    · exact absurd hnow (Nat.not_le.mpr (hafter hsteady))
    · rw [htimeline.value? hs₂ hr (hquick.fits hr)]
      exact if_pos (Nat.le_trans hnow (hquick.tick_le_deadline hr hsteady))
  · obtain ⟨htaken, -⟩ | ⟨n, htimeline⟩ := htracked.timeline
    · exact .inl htaken
    · rw [htimeline.value? hs₂ hr (hquick.fits hr)]
      refine .inr (if_neg (Nat.not_le.mpr ?_))
      exact Nat.lt_of_lt_of_le (hquick.deadline_lt_tick hr hsteady) hnow

/-- A key is acquired for four seconds, so it is refreshed every two.  The first
refresh takes no time and the second one takes a second, so it comes a second
after the deadline, and before the third one the key is free. -/
theorem holds_iff_steady_slower :
    ∃ s s₁ s₂ l r delay, Fresh single ∧ Run turn Admitted single s ∧ Wins s 0 l r s₁ ∧
      Quick l r delay ∧ Run turn (Unhindered l r s.processes.length delay) s₁ s₂ ∧
      ¬ Steady delay r.budget ∧ l.tick r.budget ≤ s₂.now.nanos ∧
      (TakenSince s₁.world.service.journal l.key s₂ ∨
        s₂.world.service.value? s₂.now l.key = none) := by
  let delay : Nat → Nat := fun n => if n = 1 then 0 else 1000000000
  obtain ⟨s, s₁, s₂, l, r, hrun, hwins, hduration, hinterval, hbudget, hat, hrun', hnow⟩ :
      ∃ s s₁ s₂ l r, Run turn Admitted single s ∧ Wins s 0 l r s₁ ∧
        l.duration.nanos = 4000000000 ∧ l.renewalInterval.nanos = 2000000000 ∧ r.budget = 3 ∧
        l.acquiredAt.nanos = 0 ∧
        Run turn (Unhindered l r s.processes.length delay) s₁ s₂ ∧ s₂.now.nanos = 6000000000 :=
    ⟨_, _, _, _, _,
      Run.of_follow? [.start (.action (.tryAcquire 0 "k" "a" (.ofSeconds 4) "")), .turn 0] rfl,
      ⟨_, _, _, rfl, rfl, rfl⟩, rfl, rfl, rfl, rfl,
      Run.of_isSome [.turn 1, .pass { nanos := 2000000000 }, .turn 1, .turn 1,
        .start (.action (.store (.refreshLatency (.ofSeconds 1)))), .turn 2, .turn 2,
        .pass { nanos := 4000000000 }, .turn 1, .turn 1, .pass { nanos := 5000000000 }, .turn 1,
        .pass { nanos := 6000000000 }] (by decide +kernel), by decide +kernel⟩
  have htick : l.tick r.budget = 6000000000 := by rw [Lease.tick, hat, hinterval, hbudget]
  have hquick : Quick l r delay := by
    refine ⟨by omega, fun n _ _ => ?_, by omega⟩
    have hdelay : delay n ≤ 1000000000 := by
      simp only [delay]
      split <;> omega
    omega
  have hsteady : ¬ Steady delay r.budget := by
    intro hsteady
    have hslower := hsteady 1 (Nat.le_refl 1) (by omega)
    exact absurd hslower (by decide)
  have hend : l.tick r.budget ≤ s₂.now.nanos := by omega
  exact ⟨s, s₁, s₂, l, r, delay, fresh_single, hrun, hwins, hquick, hrun', hsteady, hend,
    (holds_iff_steady fresh_single hrun hwins hquick hrun').2.2 hsteady hend⟩

end Leasehold.Lock
