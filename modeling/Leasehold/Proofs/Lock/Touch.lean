import Leasehold.Proofs.Lock.Deeds

/-!
# What a turn does to the registries

Whatever the store does, and through whatever it is reached, a turn touches the
registries of the lock managers in one of three ways only: a bid wins, a release
stops a renewal, or a renewal is over.  `Touch` lists them, with all other turns
as a fourth, and `turn_touches` says that the list is complete for processes of
lock managers that exist (`Process.Placed`).

This asks less of a process than `Process.Fit`, and it says less than `Deed`: a
store may be written to by others, and may be of any kind.
-/

namespace Leasehold.Lock

open Simulation

/-! ## Worlds that grow -/

/-- Generations and tokens are given out, and what was cancelled stays so. -/
structure World.Grows (w w' : World) : Prop where
  managers : w'.managers.length = w.managers.length
  generation : ∀ i, (w.manager i).nextGeneration ≤ (w'.manager i).nextGeneration
  tokens : w.tokens.Le w'.tokens

theorem World.Grows.refl (w : World) : w.Grows w := ⟨rfl, fun _ => Nat.le_refl _, .refl _⟩

theorem World.Le.grows {w w' : World} (h : w.Le w') : w.Grows w' :=
  ⟨h.managers, h.generation, h.tokens⟩

theorem World.grows_of_managers_eq {w w' : World} (h : w'.managers = w.managers)
    (htokens : w.tokens.Le w'.tokens) : w.Grows w' where
  managers := by rw [h]
  generation i := Nat.le_of_eq (by rw [manager, manager, h])
  tokens := htokens

theorem World.registered?_of_managers_eq {w w' : World} (h : w'.managers = w.managers) (i : Nat)
    (k : String) : w'.registered? i k = w.registered? i k := by
  rw [registered?, registered?, manager, manager, h]

/-! ## Processes of lock managers that exist -/

/-- An action at a lock manager that exists. -/
def Action.Placed (w : World) : Action → Prop
  | .acquire manager .. => manager < w.managers.length
  | .acquireDefault manager .. => manager < w.managers.length
  | .tryAcquire manager .. => manager < w.managers.length
  | .release manager .. => manager < w.managers.length
  | .cancel _ | .child .. | .config _ | .store _ => True

/-- A renewal of a lock manager that exists, with a generation and a token that
were given out. -/
structure Renewing.Placed (w : World) (r : Renewing) : Prop where
  manager : r.manager < w.managers.length
  generation : r.generation < (w.manager r.manager).nextGeneration
  token : r.token < w.tokens.nodes.length

/-- A process of a lock manager that exists. -/
def Process.Placed (w : World) : Process → Prop
  | .action a => a.Placed w
  | .later _ a => a.Placed w
  | .attempting bid _ _ => bid.manager < w.managers.length
  | .asking bid _ _ _ => bid.manager < w.managers.length
  | .resting bid _ _ _ => bid.manager < w.managers.length
  | .trying bid _ => bid.manager < w.managers.length
  | .renewing r _ => r.Placed w
  | .releasing .. | .store _ => True

theorem Action.Placed.mono {w w' : World} {a : Action} (h : a.Placed w) (hw : w.Grows w') :
    a.Placed w' := by
  cases a with
  | acquire | acquireDefault | tryAcquire | release => exact Nat.lt_of_lt_of_eq h hw.managers.symm
  | cancel | child | config | store => trivial

theorem Renewing.Placed.mono {w w' : World} {r : Renewing} (h : r.Placed w) (hw : w.Grows w') :
    r.Placed w' where
  manager := Nat.lt_of_lt_of_eq h.manager hw.managers.symm
  generation := Nat.lt_of_lt_of_le h.generation (hw.generation _)
  token := Nat.lt_of_lt_of_le h.token hw.tokens.length

theorem Process.Placed.mono {w w' : World} {p : Process} (h : p.Placed w) (hw : w.Grows w') :
    p.Placed w' := by
  cases p with
  | action | later => exact Action.Placed.mono h hw
  | attempting | asking | resting | trying => exact Nat.lt_of_lt_of_eq h hw.managers.symm
  | renewing => exact Renewing.Placed.mono h hw
  | releasing | store => trivial

theorem Process.Placed.bid {w : World} {p : Process} {bid : Bid} (h : p.Placed w)
    (hbid : p.bid? = some bid) : bid.manager < w.managers.length := by
  cases p with
  | action | later | attempting | resting | releasing | renewing | store => cases hbid
  | asking | trying => cases hbid; exact h

theorem Process.Fit.placed {w : World} {now : Instant} {p : Process} (h : p.Fit w now) :
    p.Placed w := by
  have haction : ∀ a : Action, a.Fit w → a.Placed w := by
    intro a ha
    cases a with
    | acquire | acquireDefault | tryAcquire | release => exact ha
    | cancel | child | config | store => trivial
  cases p with
  | action | later => exact haction _ h
  | attempting | resting => exact Bid.Fit.manager h
  | asking | trying => exact h.1.manager
  | renewing => exact ⟨h.1.manager, h.1.generation, h.1.token⟩
  | releasing | store => trivial

/-! ## Touches -/

/-- What a turn does to the registries: the process that has it, the world after
it, how the process goes on, what it starts, and the lease that it acquires. -/
inductive Touch (now : Instant) (w : World) :
    Process → World → Option Process → List Process → Option Lease → Prop where
  /-- The registries stay as they are, and a renewal goes on. -/
  | calm {p w' next?} :
      w'.managers = w.managers → w.tokens.Le w'.tokens →
      next?.bind Process.renewal? = p.renewal? → (∀ q, next? = some q → q.Placed w') →
      Touch now w p w' next? [] none
  /-- A bid wins. -/
  | won {p bid s l r w'} :
      p.bid? = some bid → Held (w.withService s) now bid l r w' →
      Touch now w p w' none [.renewing r .starting] (some l)
  /-- A release begins. -/
  | released {manager key owner w' e} :
      Stopped w manager key owner w' →
      Touch now w (.action (.release manager key owner)) w' (some (.releasing key owner e)) [] none
  /-- A renewal is over. -/
  | retired {r stage w'} :
      Retired w r w' → Touch now w (.renewing r stage) w' none [] none

/-- The step of a turn, if there is one, is a touch. -/
def IsTouch (now : Instant) (w : World) (p : Process) : Turn World Process Result → Prop
  | .waits _ => True
  | .moves w' q _ => Touch now w p w' (some q) [] none
  | .ends w' result started _ => Touch now w p w' none started result.lease?

section

variable {now : Instant} {w : World} {p : Process}

@[simp] theorem isTouch_after {t : Turn World Process Result} {records : List Log.Record} :
    IsTouch now w p (t.after records) ↔ IsTouch now w p t := by
  cases t <;> rfl

/-- A part of a process changes the state of the store alone. -/
theorem isTouch_within {π ρ : Type} {t : Turn Service π ρ} {next : π → Process}
    {done : World → ρ → Turn World Process Result}
    (hrenewal : ∀ q, (next q).renewal? = p.renewal?) (hnext : ∀ q, (next q).Placed w)
    (hdone : ∀ s a, IsTouch now w p (done (w.withService s) a)) :
    IsTouch now w p (t.within w.withService next done) := by
  cases t with
  | waits due? => trivial
  | moves s q records =>
    refine .calm rfl (.refl _) (hrenewal q) ?_
    rintro _ ⟨⟩
    exact (hnext q).mono (World.grows_of_managers_eq rfl (.refl _))
  | ends s a started records => exact isTouch_after.mpr (hdone s a)

theorem isTouch_won {s : Service} {bid : Bid} {attempts? : Option Nat} (hp : p.Placed w)
    (hbid : p.bid? = some bid) : IsTouch now w p (won (w.withService s) now bid attempts?) := by
  have hhold := (w.withService s).hold_eq now bid
  simp only [won, hhold]
  exact .won (s := s) hbid (held_of_hold (hp.bid hbid) hhold)

theorem isTouch_acquire {w₀ : World} {a : Action} {manager : Nat} {key owner cancel : String}
    {lease timeout : Duration} (hmanagers : w.managers = w₀.managers)
    (htokens : w₀.tokens.Le w.tokens) (hmanager : manager < w.managers.length) :
    IsTouch now w₀ (.action a) (acquire w now manager key owner lease timeout cancel) := by
  unfold acquire
  split
  next => exact .calm hmanagers htokens rfl (by simp)
  next =>
    have htoken := w.quiet_token cancel
    refine .calm (htoken.managers.trans hmanagers) (htokens.trans htoken.tokens) rfl ?_
    rintro _ ⟨⟩
    exact Nat.lt_of_lt_of_eq hmanager (congrArg List.length htoken.managers).symm

theorem isTouch_begin {a : Action} (h : a.Placed w) :
    IsTouch now w (.action a) (begin now w a) := by
  have hquiet : ∀ {w' : World} {result : Result}, w.Quiet w' → result.lease? = none →
      IsTouch now w (.action a) (.ends w' result [] []) := by
    intro w' result hquiet hlease
    rw [IsTouch, hlease]
    exact .calm hquiet.managers hquiet.tokens rfl (by simp)
  cases a with
  | acquire => exact isTouch_acquire rfl (.refl _) h
  | acquireDefault => exact isTouch_acquire rfl (.refl _) h
  | tryAcquire manager key owner lease cancel =>
    simp only [begin, tryAcquire]
    split
    next => exact .calm rfl (.refl _) rfl (by simp)
    next =>
      have htoken := w.quiet_token cancel
      refine .calm htoken.managers htoken.tokens rfl ?_
      rintro _ ⟨⟩
      exact Nat.lt_of_lt_of_eq h (congrArg List.length htoken.managers).symm
  | release manager key owner => exact .released (stopped_stop h key owner)
  | cancel name => exact hquiet (w.quiet_cancel name) rfl
  | child parent name => exact hquiet (w.quiet_childToken parent name) rfl
  | config manager => exact hquiet (.refl w) rfl
  | store a => exact .calm rfl (.refl _) rfl (by rintro _ ⟨⟩; trivial)

theorem isTouch_renewalTurn {r : Renewing} {stage : RenewalStage} (h : r.Placed w) :
    IsTouch now w (.renewing r stage) (renewalTurn now w r stage) := by
  have hends : ∀ e, IsTouch now w (.renewing r stage) (renewalEnds w r e) := fun e =>
    .retired (retired_retire h.manager)
  have hgoes : ∀ {w' : World} {stage' records}, w'.managers = w.managers → w'.tokens = w.tokens →
      IsTouch now w (.renewing r stage) (.moves w' (.renewing r stage') records) := by
    intro w' stage' records hmanagers htokens
    have hle : w.tokens.Le w'.tokens := htokens ▸ .refl _
    refine .calm hmanagers hle rfl ?_
    rintro _ ⟨⟩
    exact h.mono (World.grows_of_managers_eq hmanagers hle)
  cases stage with
  | starting =>
    simp only [renewalTurn]
    split
    · exact hends _
    · exact hgoes rfl rfl
  | waiting cycle tick? =>
    simp only [renewalTurn]
    split
    · exact hends _
    split
    · exact hends _
    split
    · trivial
    split
    · exact hgoes rfl rfl
    · trivial
  | refreshing cycle next? e =>
    simp only [renewalTurn]
    exact isTouch_within (fun _ => rfl) (fun _ => h) fun _ _ => hgoes rfl rfl

/-- Every turn of a process of a lock manager that exists is a touch. -/
theorem turn_touches (now : Instant) (h : p.Placed w) : IsTouch now w p (turn now w p) := by
  have hends : ∀ {s : Service} {result : Result} {records}, p.renewal? = none →
      result.lease? = none → IsTouch now w p (.ends (w.withService s) result [] records) := by
    intro s result records hrenewal hlease
    rw [IsTouch, hlease]
    exact .calm rfl (.refl _) hrenewal.symm (by simp)
  have hgoes : ∀ {s : Service} {q : Process} {records}, q.renewal? = p.renewal? → q.Placed w →
      IsTouch now w p (.moves (w.withService s) q records) := by
    intro s q records hrenewal hq
    refine .calm rfl (.refl _) hrenewal ?_
    rintro _ ⟨⟩
    exact hq.mono (World.grows_of_managers_eq rfl (.refl _))
  cases p with
  | action a => exact isTouch_begin h
  | later due? a =>
    simp only [turn]
    split
    · exact hgoes rfl h
    · trivial
  | attempting bid deadline? attempts =>
    simp only [turn]
    split
    · exact hends rfl rfl
    · exact hgoes rfl h
  | asking bid deadline? attempts e =>
    simp only [turn]
    refine isTouch_within (fun _ => rfl) (fun _ => h) fun s a => ?_
    cases a with
    | acquired => exact isTouch_won h rfl
    | occupied | value | done | removed | failed => exact hgoes rfl h
  | resting bid deadline? attempts due? =>
    simp only [turn]
    split
    · exact hends rfl rfl
    split
    · exact hgoes rfl h
    · trivial
  | trying bid e =>
    simp only [turn]
    refine isTouch_within (fun _ => rfl) (fun _ => h) fun s a => ?_
    cases a with
    | acquired => exact isTouch_won h rfl
    | occupied | value | done | removed | failed => exact hends rfl rfl
  | releasing key owner e =>
    simp only [turn]
    exact isTouch_within (fun _ => rfl) (fun _ => trivial) fun _ _ => hends rfl rfl
  | renewing r stage => exact isTouch_renewalTurn h
  | store t =>
    simp only [turn]
    exact isTouch_within (fun _ => rfl) (fun _ => trivial) fun _ _ => hends rfl rfl

end

/-! ## What a touch leaves -/

section

variable {now : Instant} {w w' : World} {p : Process} {next? : Option Process}
  {started : List Process} {lease? : Option Lease}

theorem Touch.grows (h : Touch now w p w' next? started lease?) : w.Grows w' := by
  cases h with
  | calm hmanagers htokens => exact World.grows_of_managers_eq hmanagers htokens
  | won _ hheld => exact ⟨hheld.le.managers, hheld.le.generation, hheld.le.tokens⟩
  | released hstopped => exact hstopped.le.grows
  | retired hretired => exact hretired.le.grows

theorem Touch.placed_next (h : Touch now w p w' next? started lease?) :
    ∀ q, next? = some q → q.Placed w' := by
  cases h with
  | calm _ _ _ hnext => exact hnext
  | won | retired => simp
  | released => rintro _ ⟨⟩; trivial

theorem Touch.placed_started (h : Touch now w p w' next? started lease?) (hp : p.Placed w) :
    ∀ q ∈ started, q.Placed w' := by
  cases h with
  | calm | released | retired => simp
  | won hbid hheld =>
    intro q hq
    rw [List.mem_singleton] at hq
    subst hq
    refine ⟨?_, ?_, hheld.token⟩
    · rw [hheld.renewal]
      exact Nat.lt_of_lt_of_eq (hp.bid hbid) hheld.le.managers.symm
    · have hgeneration := hheld.generation
      rw [hheld.renewal] at hgeneration ⊢
      exact hgeneration

/-- A renewal goes on as the same renewal, and nothing else goes on as one. -/
theorem Touch.renewal?_next (h : Touch now w p w' next? started lease?) {q : Process}
    (hnext : next? = some q) : q.renewal? = p.renewal? := by
  subst hnext
  cases h with
  | calm _ _ hrenewal => exact hrenewal
  | released => rfl

theorem Process.eq_renewing {q : Process} {r : Renewing} (h : q.renewal? = some r) :
    ∃ stage, q = .renewing r stage := by
  cases q with
  | renewing q stage => cases h; exact ⟨stage, rfl⟩
  | action | later | attempting | asking | resting | trying | releasing | store => cases h

/-- Only a bid that wins starts something: a renewal. -/
theorem Touch.of_started {q : Process} (h : Touch now w p w' next? started lease?)
    (hq : q ∈ started) : ∃ l r, lease? = some l ∧ started = [.renewing r .starting] := by
  cases h with
  | calm | released | retired => cases hq
  | won => exact ⟨_, _, rfl, rfl⟩

/-- A renewal that does not go on is over. -/
theorem Touch.retired_of_renewing {r : Renewing} {stage : RenewalStage}
    (h : Touch now w (.renewing r stage) w' none started lease?) : Retired w r w' := by
  cases h with
  | calm _ _ hrenewal => cases hrenewal
  | won hbid => cases hbid
  | retired hretired => exact hretired

/-- A registered renewal stays registered until it is cancelled or over. -/
theorem Touch.registered_kept (h : Touch now w p w' next? started lease?) {i : Nat} {k : String}
    {e : Renewal} (he : w.registered? i k = some e) (htoken : e.token < w.tokens.nodes.length) :
    w'.registered? i k = some e ∨ w'.tokens.isCancelled e.token = true ∨
      ∃ r stage, p = .renewing r stage ∧ next? = none ∧ r.manager = i ∧
        r.generation = e.generation := by
  cases h with
  | calm hmanagers => exact .inl ((World.registered?_of_managers_eq hmanagers i k).trans he)
  | won _ hheld => exact (hheld.kept he htoken).imp_right .inl
  | released hstopped => exact (hstopped.kept he htoken).imp_right .inl
  | retired hretired =>
    exact (hretired.kept he).imp_right fun ⟨hi, hgeneration⟩ =>
      .inr ⟨_, _, rfl, rfl, hi, hgeneration⟩

/-- A renewal is registered when it is started, and at no other time. -/
theorem Touch.registered_cases (h : Touch now w p w' next? started lease?) {i : Nat} {k : String}
    {e : Renewal} (he : w'.registered? i k = some e) :
    w.registered? i k = some e ∨
      ∃ l r, lease? = some l ∧ started = [.renewing r .starting] ∧ r.manager = i ∧ r.key = k ∧
        e = ⟨l.owner, r.token, r.generation⟩ := by
  cases h with
  | calm hmanagers => exact .inl ((World.registered?_of_managers_eq hmanagers i k).symm.trans he)
  | won _ hheld =>
    refine (hheld.registered_cases he).imp_right fun ⟨hi, hk, he⟩ => ?_
    refine ⟨_, _, rfl, rfl, ?_, ?_, ?_⟩
    · rw [hheld.renewal, hi]
    · rw [hheld.renewal, hk]
    · rw [hheld.lease, he]
  | released hstopped => exact .inl (hstopped.registered_of he)
  | retired hretired => exact .inl (hretired.registered_of he)

end

end Leasehold.Lock
