import Leasehold.Proofs.Lock.Registrations

/-!
# Renewals of one lock manager whose calls take no time

If calls to the store take no time, no renewal is cancelled while its refresh is
under way (`Instantaneous`, `Serial`).  `Serviced` puts this together with what
its registry knows, for one lock manager.
-/

namespace Leasehold.Lock

open Simulation

variable {s s' : Locks} {c : Choice Process}

/-! ## Calls that take no time -/

/-- While a call is under way nobody else has a turn and no time passes. -/
def Instantaneous : Rule World Process := fun s c _ =>
  ∀ n < s.processes.length, ∀ p ∈ s.process? n, p.call?.isSome = true → c.IsTurn n

instance (s s' : Locks) (c : Choice Process) : Decidable (Instantaneous s c s') :=
  inferInstanceAs (Decidable (∀ n < s.processes.length, ∀ p ∈ s.process? n,
    p.call?.isSome = true → c.IsTurn n))

/-- At most one call is under way, and if it is a refresh, its renewal is not
cancelled. -/
structure Serial (s : Locks) : Prop where
  alone : ∀ m n p q, s.process? m = some p → s.process? n = some q → p.call?.isSome = true →
    q.call?.isSome = true → m = n
  uncancelled : ∀ n r cycle next? e,
    s.process? n = some (.renewing r (.refreshing cycle next? e)) →
    s.world.tokens.isCancelled r.token = false

theorem Instantaneous.isTurn (h : Instantaneous s c s') {n : Nat} {p : Process}
    (hp : s.process? n = some p) (hcall : p.call?.isSome = true) : c.IsTurn n :=
  h n (System.lt_length_of_process? hp) p hp hcall

/-- A fit renewal whose refresh is under way waits for a call. -/
theorem call?_of_refreshing {now : Instant} {w : World} {r : Renewing} {cycle : Nat}
    {next? : Option Instant} {e : Errand}
    (h : (Process.renewing r (.refreshing cycle next? e)).Fit w now) :
    (Process.renewing r (.refreshing cycle next? e)).call?.isSome = true := by
  obtain ⟨-, -, -, c, rfl, -⟩ := h
  rfl

/-- A refresh that is under way after a turn was so before, or its tick has come. -/
theorem Deed.refreshing_cases {now : Instant} {w w' : World} {p : Process}
    {next? : Option Process} {started : List Process} {lease? : Option Lease} {r : Renewing}
    {cycle : Nat} {tick? : Option Instant} {e : Errand}
    (h : Deed now w p w' next? started lease?)
    (hnext : next? = some (.renewing r (.refreshing cycle tick? e))) :
    w'.tokens = w.tokens ∧ (w.tokens.isCancelled r.token = false ∨
      ∃ e₀, p = .renewing r (.refreshing cycle tick? e₀)) := by
  cases h with
  | idle _ _ _ hidle => exact absurd (hidle _ hnext).1 id
  | acted | won | released | unread | retired | begun => cases hnext
  | ticked _ huncancelled => cases hnext; exact ⟨rfl, .inl huncancelled⟩
  | underway hc =>
    cases Process.awaits hc with
    | asking | trying | releasing | reading => cases hnext
    | refreshing => cases hnext; exact ⟨rfl, .inr ⟨_, rfl⟩⟩
  | answered hc =>
    cases Process.awaits hc with
    | asking | trying | releasing | refreshing | reading => cases hnext

/-- What is started is not yet busy. -/
theorem Process.Admitted.call?_eq_none {w : World} {p : Process} (h : p.Admitted w) :
    p.call? = none := by
  cases p with
  | action | later => rfl
  | attempting | asking | resting | trying | releasing | renewing | store => cases h

theorem Fresh.serial (h : Fresh s) : Serial s := by
  have hnone : ∀ n p, s.process? n ≠ some p := by
    intro n p hp
    rw [System.process?, h.processes] at hp
    cases hp
  exact ⟨fun m n p q hp => absurd hp (hnone m p), fun n r cycle next? e hp => absurd hp (hnone n _)⟩

/-- Whoever waits for a call after a step has had the turn. -/
theorem Instantaneous.busy_step (hinst : Instantaneous s c s') (hs : Sound s)
    (hstep : Step turn s c s') (hrule : Admitted s c s') {n : Nat} {p : Process}
    (hp : s'.process? n = some p) (hcall : p.call?.isSome = true) : c.IsTurn n := by
  cases hs.doing hstep with
  | @deed i q w' next? started lease? hq hdeed =>
    obtain ⟨-, hold⟩ | ⟨rfl, -⟩ | ⟨k, -, hnew⟩ := System.process?_advance_cases hp
    · exact hinst.isTurn hold hcall
    · exact rfl
    · obtain ⟨l, r, -, rfl⟩ := hdeed.of_started (List.mem_of_getElem? hnew)
      rw [List.mem_singleton.mp (List.mem_of_getElem? hnew)] at hcall
      cases hcall
  | start q =>
    obtain hold | ⟨-, rfl⟩ := System.process?_add_cases hp
    · exact hinst.isTurn hold hcall
    · rw [Process.Admitted.call?_eq_none hrule] at hcall
      cases hcall
  | pass => exact hinst.isTurn (c := .pass _) hp hcall

theorem Serial.step (hserial : Serial s) (hs : Sound s) (hstep : Step turn s c s')
    (hrule : Admitted s c s') (hinst : Instantaneous s c s') : Serial s' := by
  have hs' := hs.step hstep hrule
  refine ⟨fun m n p q hp hq hpcall hqcall => ?_, fun n r cycle next? e hp => ?_⟩
  · have hm := hinst.busy_step hs hstep hrule hp hpcall
    have hn := hinst.busy_step hs hstep hrule hq hqcall
    cases c with
    | turn i => exact hm.symm.trans hn
    | start | pass => cases hm
  · have hturn := hinst.busy_step hs hstep hrule hp (call?_of_refreshing (hs'.fit _ _ hp))
    cases hs.doing hstep with
    | @deed i p w' next? started lease? hq hdeed =>
      cases hturn
      rw [System.process?_advance_self (System.lt_length_of_process? hq)] at hp
      obtain ⟨htokens, huncancelled | ⟨e₀, rfl⟩⟩ := hdeed.refreshing_cases hp
      · rw [System.world_advance, htokens]
        exact huncancelled
      · rw [System.world_advance, htokens]
        exact hserial.uncancelled _ _ _ _ _ hq
    | start | pass => cases hturn

/-! ## One lock manager -/

/-- Users do what they like, and calls take no time. -/
def Serialised : Rule World Process := fun s c s' => Admitted s c s' ∧ Instantaneous s c s'

instance (s s' : Locks) (c : Choice Process) : Decidable (Serialised s c s') :=
  inferInstanceAs (Decidable (Admitted s c s' ∧ Instantaneous s c s'))

/-- What holds besides of a run with one lock manager and calls that take no
time. -/
structure Serviced (s : Locks) (own : Nat) (r : Renewing) : Prop where
  sound : Sound s
  registry : RegistrySound s
  serial : Serial s
  managers : s.world.managers.length = 1
  isRenewal : IsRenewal s own r

theorem Serviced.manager_eq {own n : Nat} {q r : Renewing} {stage : RenewalStage}
    (h : Serviced s own r) (hq : s.process? n = some (.renewing q stage)) : q.manager = 0 := by
  have hlt := (h.sound.fit _ _ hq).1.manager
  have hmanagers := h.managers
  omega

theorem Serviced.step {own : Nat} {r : Renewing} (h : Serviced s own r) (hstep : Step turn s c s')
    (hrule : Serialised s c s') : Serviced s' own r where
  sound := h.sound.step hstep hrule.1
  registry := h.registry.step h.sound.placed hstep hrule.1.renewal?
  serial := h.serial.step h.sound hstep hrule.1 hrule.2
  managers := (h.sound.world_le hstep).managers.trans h.managers
  isRenewal := h.isRenewal.step h.sound hstep

/-- What holds of every system that a fresh one with one lock manager reaches. -/
theorem Fresh.run_serialised {s₀ : Locks} (hfresh : Fresh s₀)
    (hmanagers : s₀.world.managers.length = 1) (hrun : Run turn Serialised s₀ s) :
    Sound s ∧ RegistrySound s ∧ Serial s ∧ s.world.managers.length = 1 := by
  refine hrun.preserves (I := fun s => Sound s ∧ RegistrySound s ∧ Serial s ∧
    s.world.managers.length = 1) (fun ⟨hs, hr, hserial, hlength⟩ hstep hrule => ?_)
    ⟨hfresh.sound, hfresh.blank.registrySound, hfresh.serial, hmanagers⟩
  exact ⟨hs.step hstep hrule.1, hr.step hs.placed hstep hrule.1.renewal?, hserial.step hs hstep hrule.1 hrule.2,
    (hs.world_le hstep).managers.trans hlength⟩

/-- The renewal of a win is serviced from the moment it is started. -/
theorem Fresh.serviced {s₀ : Locks} {i : Nat} {l : Lease} {r : Renewing} (hfresh : Fresh s₀)
    (hmanagers : s₀.world.managers.length = 1) (hrun : Run turn Serialised s₀ s)
    (hwins : Wins s i l r s') : Serviced s' s.processes.length r := by
  obtain ⟨hs, hregistry, hserial, hlength⟩ := hfresh.run_serialised hmanagers hrun
  have hinst : Instantaneous s (.turn i) s' := by
    intro n hn q hq hbusy
    obtain ⟨p, bid, call, service, w, hp, -, hcall, -⟩ := hwins.deed hs
    exact hserial.alone i n p q hp hq (by rw [hcall]; rfl) hbusy
  have hadmitted : Admitted s (.turn i) s' := trivial
  exact {
    sound := hs.step hwins.step hadmitted
    registry := hregistry.step hs.placed hwins.step hadmitted.renewal?
    serial := hserial.step hs hwins.step hadmitted hinst
    managers := (hs.world_le hwins.step).managers.trans hlength
    isRenewal := hwins.isRenewal }

end Leasehold.Lock
