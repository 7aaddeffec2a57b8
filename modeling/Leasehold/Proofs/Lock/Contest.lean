import Leasehold.Proofs.Lock.Contenders
import Leasehold.Proofs.Lock.Exclusion
import Leasehold.Proofs.Simulation.History

/-!
# Contests for a key

Any number of contenders try to acquire one free key, and nobody releases it.
Bystanders may look at the store, make it fail and delay it, except that it takes no
time to set a key.

The first contender whose attempt arrives wins.  If all others have their deadlines
within the time of its lease, then nobody else ever wins: until the lease is over the
key has its token, and the others are told at their deadlines that their time is over
(`exactly_one_winner`).
-/

namespace Leasehold.Lock

open Simulation

/-! ## The rules of a contest -/

/-- What bystanders may do: anything but acquire, release, write, or make setting a
key take time. -/
def Action.Aside : Action → Prop
  | .acquire .. | .acquireDefault .. | .tryAcquire .. | .release .. => False
  | .cancel _ | .child .. | .config _ => True
  | .store (.latency .set _) => False
  | .store a => a.Fit

instance (a : Action) : Decidable a.Aside :=
  match a with
  | .acquire .. | .acquireDefault .. | .tryAcquire .. | .release .. | .store (.latency .set _) =>
      inferInstanceAs (Decidable False)
  | .store (.request r) => inferInstanceAs (Decidable (StoreAction.request r).Fit)
  | .cancel _ | .child .. | .config _
  | .store (.value _) | .store (.ttl _) | .store .size | .store .requests
  | .store (.refreshCount _) | .store .clearRequests | .store (.unavailable _)
  | .store (.refreshFails _) | .store (.refreshLatency _) | .store (.sleep _)
  | .store (.latency .get _) | .store (.latency .delete _) | .store (.latency .refresh _)
  | .store (.latency .deleteIfEquals _) => inferInstanceAs (Decidable True)

/-- A bystander, or a renewal. -/
def Process.Aside : Process → Prop
  | .action a => a.Aside
  | .store (.action (.latency .set _)) => False
  | .store _ | .renewing .. => True
  | .later .. | .attempting .. | .asking .. | .resting .. | .trying .. | .releasing .. => False

/-- Time passes promptly, and only bystanders begin anything. -/
def Contested : Rule World Process := fun s c s' =>
  Prompt turn s c s' ∧
    match c with
    | .start (.action a) => a.Aside
    | .start _ => False
    | .turn _ | .pass _ => True

instance (s s' : Locks) (c : Choice Process) : Decidable (Contested s c s') :=
  match c with
  | .start (.action a) => inferInstanceAs (Decidable (Prompt turn s _ s' ∧ a.Aside))
  | .start (.later ..) | .start (.attempting ..) | .start (.asking ..) | .start (.resting ..)
  | .start (.trying ..) | .start (.releasing ..) | .start (.renewing ..) | .start (.store _) =>
      inferInstanceAs (Decidable (Prompt turn s _ s' ∧ False))
  | .turn _ | .pass _ => inferInstanceAs (Decidable (Prompt turn s _ s' ∧ True))

/-- On its next turn a process learns what came of an attempt to take a key. -/
def Attempts (s : Locks) (i : Nat) : Prop :=
  ∃ p ∈ s.process? i, p.bid?.isSome = true ∧ (p.answer? s.world s.now).isSome = true

instance (s : Locks) (i : Nat) : Decidable (Attempts s i) :=
  inferInstanceAs (Decidable (∃ p ∈ s.process? i, _ ∧ _))

/-- No attempt arrives yet. -/
def Unattempted : Rule World Process := fun s c s' =>
  Contested s c s' ∧ ∀ i, c.IsTurn i → ¬ Attempts s i

instance (s s' : Locks) (c : Choice Process) : Decidable (Unattempted s c s') :=
  match c with
  | .turn i => decidable_of_iff (_ ∧ ¬ Attempts s i)
      (and_congr_right fun _ => ⟨fun h _ hi => hi ▸ h, fun h => h i rfl⟩)
  | .start _ => decidable_of_iff _ (and_iff_left fun _ h => h.elim).symm
  | .pass _ => decidable_of_iff _ (and_iff_left fun _ h => h.elim).symm

/-- Contenders for a key that is free, before any of them has begun. -/
structure Contest (key : String) (contenders : List Contender) (s : Locks) : Prop where
  face : s.world.service.face = .simulated
  wrap : s.world.service.wrap ≠ .primitive
  latency : s.world.service.latency .set = .zero
  backoff : ∀ i, 0 < (s.world.manager i).config.backoff.nanos
  free : s.world.service.value? s.now key = none
  placed : ∀ c ∈ contenders, c.manager < s.world.managers.length ∧ s.now ≤ c.start
  processes : s.processes = contenders.map fun c => some (c.process key)

/-! ## Who takes part -/

/-- The process of a number is a contender, or it stands aside. -/
def Role (key : String) (contenders : List Contender) (now : Instant) (i : Nat) (p : Process) :
    Prop :=
  match contenders[i]? with
  | some c => c.Stage key now p
  | none => p.Aside

/-- A turn after which a process still stands aside. -/
def StaysAside : Turn World Process Result → Prop
  | .waits _ => True
  | .moves _ next _ => next.Aside
  | .ends _ _ started _ => started = []

variable {key : String} {contenders : List Contender} {now : Instant} {w : World} {p : Process}
  {s s' : Locks} {c : Choice Process} {i : Nat} {l : Lease} {r : Renewing} {own : Nat}

@[simp] theorem staysAside_after {t : Turn World Process Result} {records : List Log.Record} :
    StaysAside (t.after records) ↔ StaysAside t := by
  cases t <;> rfl

theorem StaysAside.within {π ρ : Type} {t : Turn Service π ρ} {next : π → Process}
    {done : World → ρ → Turn World Process Result} (hnext : ∀ q, (next q).Aside)
    (hdone : ∀ w a, StaysAside (done w a)) : StaysAside (t.within w.withService next done) := by
  cases t with
  | waits due? => trivial
  | moves s q records => exact hnext q
  | ends s a started records => exact staysAside_after.mpr (hdone _ a)

theorem staysAside_renewalTurn (stage : RenewalStage) :
    StaysAside (renewalTurn now w r stage) := by
  cases stage with
  | starting =>
    simp only [renewalTurn]
    split
    · rfl
    · trivial
  | waiting cycle tick? =>
    simp only [renewalTurn]
    split
    · rfl
    split
    · rfl
    split
    · trivial
    split
    · trivial
    · trivial
  | refreshing cycle next? e =>
    simp only [renewalTurn]
    exact .within (fun _ => trivial) fun _ _ => trivial

/-- Who stands aside goes on so, and starts nothing. -/
theorem Process.Aside.turn (h : p.Aside) : StaysAside (turn now w p) := by
  cases p with
  | later | attempting | asking | resting | trying | releasing => cases h
  | action a =>
    cases a with
    | acquire | acquireDefault | tryAcquire | release => cases h
    | cancel | child | config => rfl
    | store a =>
      cases a with
      | latency kind d =>
        cases kind with
        | set => cases h
        | get | delete | refresh | deleteIfEquals => trivial
      | request | value | ttl | size | requests | refreshCount | clearRequests | unavailable
      | refreshFails | refreshLatency | sleep => trivial
  | renewing r stage => exact staysAside_renewalTurn stage
  | store t =>
    simp only [Lock.turn]
    cases t with
    | action a =>
      cases a with
      | request | sleep => trivial
      | value | ttl | size | requests | refreshCount | clearRequests | unavailable | refreshFails
      | refreshLatency | latency => rfl
    | errand e =>
      simp only [Service.taskTurn]
      cases w.service.turn now e with
      | waits | moves => trivial
      | ends => simp [Turn.within, Turn.after, StaysAside]
    | asleep due? =>
      simp only [Service.taskTurn]
      split
      · rfl
      · trivial

/-- The turn of somebody who takes part: he goes on in his role, and when he ends, a
contender has lost or won, and a bystander starts nothing. -/
def Plays (key : String) (contenders : List Contender) (now : Instant) (i : Nat) (p : Process) :
    Turn World Process Result → Prop
  | .waits due? =>
      ∀ t, now ≤ t → (∀ due, due? = some due → t ≤ due) → Role key contenders t i p
  | .moves _ next _ => Role key contenders now i next
  | .ends _ result started _ =>
      (started = [] ∧ (i < contenders.length → result = .failed (.timedOut key))) ∨
        ∃ l r, result = .lease l ∧ started = [.renewing r .starting]

theorem Role.plays (h : Role key contenders now i p) (hfit : p.Fit w now)
    (hwrap : w.service.wrap ≠ .primitive) (hlatency : w.service.latency .set = .zero) :
    Plays key contenders now i p (turn now w p) := by
  unfold Role at h
  split at h
  next c hc =>
    have hfares := h.fares hfit hwrap hlatency
    have hrole : ∀ {t q}, c.Stage key t q → Role key contenders t i q := by
      intro t q hq
      simpa only [Role, hc] using hq
    cases hturn : turn now w p with
    | waits due? =>
      rw [hturn] at hfares
      exact fun t hle hdue => hrole (hfares.2 t hle hdue)
    | moves =>
      rw [hturn] at hfares
      exact hrole hfares
    | ends =>
      rw [hturn] at hfares
      exact hfares.imp_left fun ⟨hresult, hstarted⟩ => ⟨hstarted, fun _ => hresult⟩
  next hc =>
    have haside : StaysAside (turn now w p) := h.turn
    have hrole : ∀ {t q}, q.Aside → Role key contenders t i q := by
      intro t q hq
      simpa only [Role, hc] using hq
    cases hturn : turn now w p with
    | waits due? => exact fun t _ _ => hrole h
    | moves =>
      rw [hturn] at haside
      exact hrole haside
    | ends =>
      rw [hturn] at haside
      refine .inl ⟨haside, fun hlt => ?_⟩
      rw [List.getElem?_eq_none_iff] at hc
      exact absurd hlt (Nat.not_lt.mpr hc)

/-- Who is not about to change how long it takes to set a key. -/
theorem Role.not_latency (h : Role key contenders now i p) (d : Duration) :
    p ≠ .store (.action (.latency .set d)) := by
  rintro rfl
  unfold Role at h
  split at h
  · cases h
  · exact h

/-- A bid is that of a contender. -/
theorem Role.bids {bid : Bid} (h : Role key contenders now i p) (hbid : p.bid? = some bid) :
    ∃ c, contenders[i]? = some c ∧ c.Stage key now p ∧ c.Bids key bid := by
  unfold Role at h
  split at h
  next c hc => exact ⟨c, hc, h, h.bids hbid⟩
  next =>
    cases p with
    | asking | trying => cases h
    | action | later | attempting | resting | releasing | renewing | store => cases hbid

theorem Role.not_releases (h : Role key contenders now i p) {k owner : String} :
    ¬ p.Releases k owner := by
  intro hreleases
  unfold Role at h
  split at h
  · cases h <;> exact hreleases
  · cases p with
    | action a =>
      cases a with
      | release => exact h
      | acquire | acquireDefault | tryAcquire | cancel | child | config | store => exact hreleases
    | releasing => exact h
    | later | attempting | asking | resting | trying | renewing | store => exact hreleases

/-! ## Contests under way -/

/-- A contest under way. -/
structure Cast (key : String) (contenders : List Contender) (s : Locks) : Prop where
  sound : Sound s
  latency : s.world.service.latency .set = .zero
  backoff : ∀ i, 0 < (s.world.manager i).config.backoff.nanos
  length : contenders.length ≤ s.processes.length
  role : ∀ i p, s.process? i = some p → Role key contenders s.now i p

theorem role_of_aside (hle : contenders.length ≤ i) (h : p.Aside) :
    Role key contenders now i p := by
  simpa only [Role, List.getElem?_eq_none hle] using h

theorem aside_of_contested (h : Contested s (.start p) s') : p.Aside := by
  obtain ⟨-, hstart⟩ := h
  cases p with
  | action => exact hstart
  | later | attempting | asking | resting | trying | releasing | renewing | store => cases hstart

theorem Contested.admitted (h : Contested s c s') : Admitted s c s' := by
  obtain ⟨-, hstart⟩ := h
  cases c with
  | turn | pass => trivial
  | start p =>
    cases p with
    | action a =>
      cases a with
      | acquire | acquireDefault | tryAcquire | release => cases hstart
      | cancel | child | config => trivial
      | store a =>
        cases a with
        | latency kind d => trivial
        | request | value | ttl | size | requests | refreshCount | clearRequests | unavailable
        | refreshFails | refreshLatency | sleep => exact hstart
    | later | attempting | asking | resting | trying | releasing | renewing | store => cases hstart

theorem Cast.plays (h : Cast key contenders s) (hp : s.process? i = some p) :
    Plays key contenders s.now i p (turn s.now s.world p) :=
  (h.role i p hp).plays (h.sound.fit i p hp) h.sound.wrap h.latency

theorem Cast.step (h : Cast key contenders s) (hstep : Step turn s c s')
    (hrule : Contested s c s') : Cast key contenders s' := by
  have hworld := h.sound.world_le hstep
  refine ⟨h.sound.step hstep hrule.admitted, ?_, fun i => by rw [hworld.config]; exact h.backoff i,
    Nat.le_trans h.length hstep.length_le, ?_⟩
  · cases h.sound.doing hstep with
    | deed hp hdeed =>
      exact (hdeed.latency (h.sound.fit _ _ hp) (h.role _ _ hp).not_latency).trans h.latency
    | start | pass => exact h.latency
  intro j q hq
  cases hstep with
  | @moves i p world next records hp hturn =>
    have hplays := h.plays hp
    rw [hturn] at hplays
    obtain ⟨-, hold⟩ | ⟨rfl, hnext⟩ | ⟨k, -, hnew⟩ := System.process?_advance_cases hq
    · exact h.role j q hold
    · cases hnext; exact hplays
    · cases hnew
  | @ends i p world result started records hp hturn =>
    have hplays := h.plays hp
    rw [hturn] at hplays
    obtain ⟨-, hold⟩ | ⟨-, hnext⟩ | ⟨k, rfl, hnew⟩ := System.process?_advance_cases hq
    · exact h.role j q hold
    · cases hnext
    · rcases hplays with ⟨rfl, -⟩ | ⟨l, r, -, rfl⟩
      · cases hnew
      · have hmem := List.mem_of_getElem? hnew
        rw [List.mem_singleton] at hmem
        subst hmem
        exact role_of_aside (Nat.le_trans h.length (Nat.le_add_right _ _)) trivial
  | start p =>
    obtain hold | ⟨rfl, rfl⟩ := System.process?_add_cases hq
    · exact h.role j q hold
    · exact role_of_aside h.length (aside_of_contested hrule)
  | @pass t hle =>
    have hq : s.process? j = some q := hq
    obtain ⟨due?, hwaits, hdue⟩ := WaitsUntil.exists_due (hrule.1 q (System.mem_running hq))
    have hplays := h.plays hq
    rw [hwaits] at hplays
    exact hplays t hle hdue

/-- A step is a win, or it starts nothing, and a contender that ends by it has lost. -/
theorem Cast.wins_or_loses (h : Cast key contenders s) (hstep : Step turn s c s') :
    (∃ i l r, c = .turn i ∧ Wins s i l r s') ∨
      (∀ i, c = .turn i → s'.processes.length = s.processes.length) ∧
        ∀ e, s.ending? turn c = some e → e.number < contenders.length →
          e.result = .failed (.timedOut key) := by
  cases hstep with
  | moves hp hturn =>
    refine .inr ⟨fun _ _ => by simp, fun e he => ?_⟩
    rw [System.ending?_of_moves hp hturn] at he
    cases he
  | @ends i p world result started records hp hturn =>
    have hplays := h.plays hp
    rw [hturn] at hplays
    rcases hplays with ⟨rfl, hresult⟩ | ⟨l, r, rfl, rfl⟩
    · refine .inr ⟨fun _ _ => by simp, fun e he hlt => ?_⟩
      rw [System.ending?_of_ends hp hturn] at he
      cases he
      exact hresult hlt
    · exact .inl ⟨i, l, r, rfl, p, world, records, hp, hturn, rfl⟩
  | start p => exact .inr ⟨by rintro i ⟨⟩, by rintro e ⟨⟩⟩
  | pass => exact .inr ⟨by rintro i ⟨⟩, by rintro e ⟨⟩⟩

/-- Only contenders win, with the leases that they have asked for. -/
theorem Cast.of_wins (h : Cast key contenders s) (hwins : Wins s i l r s') :
    ∃ c, contenders[i]? = some c ∧ c.InTime s.now ∧ l.key = key ∧ l.owner = c.owner ∧
      wholeSeconds? c.lease = some l.duration := by
  obtain ⟨p, bid, _, _, _, hp, -, -, hbid, -, hheld, -⟩ := hwins.deed h.sound
  obtain ⟨c, hc, hstage, hbids⟩ := (h.role i p hp).bids hbid
  rw [hheld.lease]
  exact ⟨c, hc, hstage.inTime, hbids.key, hbids.owner, hbids.ttl⟩

/-- Who wins has made an attempt. -/
theorem Wins.attempts (h : Wins s i l r s') (hs : Sound s) : Attempts s i := by
  obtain ⟨p, hp, hacquired, bid, hbid, -⟩ := h.takes hs
  exact ⟨p, hp, by rw [hbid]; rfl, by rw [hacquired]; rfl⟩

/-! ## Before the first attempt -/

/-- A key that is free stays so until somebody attempts to take one. -/
theorem Sound.free_step {k : String} (hs : Sound s) (hstep : Step turn s c s')
    (hnone : ∀ i, c.IsTurn i → ¬ Attempts s i) (hfree : s.world.service.live? s.now k = none) :
    s'.world.service.live? s'.now k = none := by
  have hface := (hs.world_le hstep).face
  cases hs.doing hstep with
  | start p => exact hfree
  | @pass t hle =>
    rw [Service.live?, hs.face, Face.read] at hfree
    rw [Service.live?, System.world_passTo, System.now_passTo, hs.face, Face.read,
      Memory.live?_later _ hle, hfree]
    rfl
  | @deed i p w' next? started lease? hp hdeed =>
    have hlive : w'.service.stored? k = s.world.service.stored? k ∨ w'.service.stored? k = none →
        w'.service.live? s.now k = none := by
      have heq : ∀ sv : Service,
          sv.live? s.now k = (sv.stored? k).filter (·.liveAt (sv.face.read s.now)) := fun _ => rfl
      have hface : w'.service.face = s.world.service.face := hface
      rintro (hsame | hgone)
      · rw [heq, hsame, hface, ← heq, hfree]
      · rw [heq, hgone]
        rfl
    apply hlive
    have hfit := hs.fit _ _ hp
    obtain ⟨-, -, hkept⟩ | ⟨call, a, hcall, hanswer, hserved, -⟩ := hdeed.kept_or_served hfit
    · exact (hkept.entries k).imp_right fun h => h.trans hfree
    by_cases hk : k = call.request.key
    case neg => exact .inl (hserved.others k hk)
    subst hk
    rcases hserved.entry with ⟨e, -, hsame⟩ | ⟨-, hserve⟩
    · exact .inl hsame
    · rw [hfree] at hserve
      right
      obtain ⟨-, hasks⟩ := hfit.asks hcall
      rw [hserve]
      generalize call.request = request at hasks
      cases hasks with
      | bid hbid =>
        exact absurd ⟨p, hp, by rw [hbid]; rfl, by rw [hanswer]; rfl⟩ (hnone i rfl)
      | release | refresh | read => rfl

/-- The first attempt wins if the store can be reached. -/
theorem Cast.first_wins (h : Cast key contenders s) (hfirst : Attempts s i)
    (havailable : s.world.service.store.isAvailable = true)
    (hfree : s.world.service.live? s.now key = none) (hstep : Step turn s (.turn i) s') :
    ∃ l r, Wins s i l r s' := by
  obtain ⟨p, hp, hbid, -⟩ := hfirst
  obtain ⟨bid, hbid⟩ := Option.isSome_iff_exists.mp hbid
  obtain ⟨c, -, hstage, -⟩ := (h.role i p hp).bids hbid
  obtain ⟨w, l, r, records, hturn⟩ := hstage.wins (h.sound.fit i p hp) hbid havailable hfree
  cases hstep with
  | moves hp' hturn' =>
    rw [hp] at hp'
    cases hp'
    rw [hturn] at hturn'
    cases hturn'
  | ends hp' hturn' =>
    rw [hp] at hp'
    cases hp'
    rw [hturn] at hturn'
    cases hturn'
    exact ⟨l, r, p, w, records, hp, hturn, rfl⟩

/-- A contest in which nobody has attempted to take the key. -/
structure Undecided (key : String) (contenders : List Contender) (s : Locks) : Prop extends
    Cast key contenders s where
  free : s.world.service.live? s.now key = none
  unrenewed : ∀ n r stage, s.process? n ≠ some (.renewing r stage)

theorem Contest.undecided (h : Contest key contenders s) : Undecided key contenders s := by
  have hprocess : ∀ i p, s.process? i = some p →
      ∃ c, contenders[i]? = some c ∧ c ∈ contenders ∧ p = c.process key := by
    intro i p hp
    rw [System.process?, h.processes, List.getElem?_map, Option.join_eq_some_iff,
      Option.map_eq_some_iff] at hp
    obtain ⟨c, hc, hp⟩ := hp
    cases hp
    exact ⟨c, hc, List.mem_of_getElem? hc, rfl⟩
  refine ⟨⟨⟨h.face, h.wrap, ?_⟩, h.latency, h.backoff, ?_, ?_⟩, ?_, ?_⟩
  · intro i p hp
    obtain ⟨c, -, hmem, rfl⟩ := hprocess i p hp
    exact (h.placed c hmem).1
  · exact Nat.le_of_eq (by rw [h.processes, List.length_map])
  · intro i p hp
    obtain ⟨c, hc, hmem, rfl⟩ := hprocess i p hp
    simpa only [Role, hc] using Contender.Stage.coming (h.placed c hmem).2
  · have hfree := h.free
    rw [Service.value?_eq, Option.map_eq_none_iff] at hfree
    exact hfree
  · intro i r stage hp
    obtain ⟨c, -, -, hp⟩ := hprocess i _ hp
    cases hp

theorem Undecided.step (h : Undecided key contenders s) (hstep : Step turn s c s')
    (hrule : Unattempted s c s') :
    Undecided key contenders s' ∧ ∀ e, s.ending? turn c = some e → e.number < contenders.length →
      e.result = .failed (.timedOut key) := by
  have hnone : ∀ i l r, c = .turn i → ¬ Wins s i l r s' := by
    intro i l r hc hwins
    exact hrule.2 i (hc ▸ rfl) (hwins.attempts h.sound)
  refine ⟨⟨h.toCast.step hstep hrule.1, h.sound.free_step hstep hrule.2 h.free, ?_⟩, ?_⟩
  · intro n r stage hq
    obtain ⟨stage₀, hold⟩ | ⟨-, i, l, hc, hwins⟩ :=
      renewal_cases h.sound hstep hrule.1.admitted hq
    · exact h.unrenewed n r stage₀ hold
    · exact hnone i l r hc hwins
  · rcases h.toCast.wins_or_loses hstep with ⟨i, l, r, hc, hwins⟩ | ⟨-, hloses⟩
    · exact absurd hwins (hnone i l r hc)
    · exact hloses

/-! ## After the first attempt -/

/-- A contest that has been won: nobody else wins it. -/
structure Decided (key : String) (contenders : List Contender) (i : Nat) (l : Lease)
    (r : Renewing) (own : Nat) (s : Locks) : Prop extends Cast key contenders s where
  renewal : IsRenewal s own r
  isOver : s.process? i = none
  sole : ∀ n r stage, s.process? n = some (.renewing r stage) → n = own
  kept : l.Covers s.now → l.IsKept s

/-- All contenders but one have their deadlines within the time of a lease. -/
def Outlived (contenders : List Contender) (i : Nat) (l : Lease) : Prop :=
  ∀ j c, contenders[j]? = some c → j ≠ i → ∃ t, c.deadline? = some t ∧ l.Covers t

theorem Decided.not_wins (h : Decided key contenders i l r own s) (hl : Outlived contenders i l)
    (hkey : l.key = key) {j : Nat} {l' : Lease} {r' : Renewing} : ¬ Wins s j l' r' s' := by
  intro hwins
  obtain ⟨c, hc, htime, hkey', -⟩ := h.toCast.of_wins hwins
  have hne : j ≠ i := by
    rintro rfl
    obtain ⟨p, -, -, hp, -⟩ := hwins
    rw [h.isOver] at hp
    cases hp
  obtain ⟨t, ht, hcovers⟩ := hl j c hc hne
  have hnow : l.Covers s.now := hcovers.mono (htime t ht)
  exact (h.kept hnow).not_wins h.sound hnow hwins (hkey'.trans hkey.symm)

/-- The only renewal is that of the lease, so nothing cuts it. -/
theorem Decided.uncut (h : Decided key contenders i l r own s) (hrule : Contested s c s') :
    Uncut own l s c s' := by
  refine ⟨⟨hrule.admitted, ?_⟩, ?_⟩
  · cases c with
    | turn j => exact fun p hp => (h.role j p hp).not_releases
    | start | pass => trivial
  · cases c with
    | turn j =>
      rintro ⟨hne, r, hr, -⟩
      obtain ⟨p, hp, hr⟩ := Option.bind_eq_some_iff.mp hr
      split at hr
      · obtain ⟨stage, rfl⟩ := Process.eq_renewing hr
        exact hne (h.sole j r stage hp)
      · cases hr
    | start | pass => trivial

theorem Decided.step (h : Decided key contenders i l r own s) (hl : Outlived contenders i l)
    (hkey : l.key = key) (hi : i < contenders.length) (hr : r.For l)
    (hstep : Step turn s c s') (hrule : Contested s c s') :
    Decided key contenders i l r own s' where
  toCast := h.toCast.step hstep hrule
  renewal := h.renewal.step h.sound hstep
  isOver := hstep.stays_over (Nat.lt_of_lt_of_le hi h.length) h.isOver
  sole n q stage hq := by
    obtain ⟨stage₀, hold⟩ | ⟨-, j, l', -, hwins⟩ := renewal_cases h.sound hstep hrule.admitted hq
    · exact h.sole n q stage₀ hold
    · exact absurd hwins (h.not_wins hl hkey)
  kept hcovers := by
    have hnow : l.Covers s.now := hcovers.mono hstep.now_le
    exact (h.kept hnow).step h.sound hnow h.renewal hr hstep (h.uncut hrule)

/-- Whoever wins the first attempt decides the contest. -/
theorem Undecided.decided (h : Undecided key contenders s) (hwins : Wins s i l r s') :
    Decided key contenders i l r s.processes.length s' where
  toCast := h.toCast.step hwins.step ⟨trivial, trivial⟩
  renewal := hwins.isRenewal
  isOver := by
    obtain ⟨p, w, records, hp, -, rfl⟩ := hwins
    exact System.process?_advance_self (System.lt_length_of_process? hp) _ _ _
  sole n q stage hq := by
    obtain ⟨stage₀, hold⟩ | ⟨hn, -⟩ := renewal_cases h.sound hwins.step trivial hq
    · exact absurd hold (h.unrenewed n q stage₀)
    · exact hn
  kept _ := hwins.isKept h.sound

/-- The last reading of a clock. -/
def lastInstant : Instant := { nanos := 9223372036854775807999999999 }

/-- Time can pass until all contenders are over. -/
theorem Decided.exists_over (h : Decided key contenders i l r own s)
    (hl : Outlived contenders i l) (hkey : l.key = key) (hi : i < contenders.length)
    (hr : r.For l) :
    ∃ s', Run turn Contested s s' ∧ ∀ j, j < contenders.length → s'.process? j = none := by
  have hrule : ∀ {t c t'}, Unaided turn t c t' → Contested t c t' := by
    rintro t c t' ⟨hprompt, hstart⟩
    cases c with
    | turn | pass => exact ⟨hprompt, trivial⟩
    | start p => exact absurd rfl (hstart p)
  have hlowers : ∀ {t : Locks}, Decided key contenders i l r own t → ∀ p,
      Lowers t.now (Process.effort t.now p) (Process.effort t.now) (turn t.now t.world p) :=
    fun h p => turn_lowers p fun bid _ _ _ _ => h.backoff bid.manager
  have hturn : ∀ {t : Locks} {j : Nat} {t' : Locks}, Decided key contenders i l r own t →
      Step turn t (.turn j) t' →
      Decided key contenders i l r own t' ∧ t'.processes.length = t.processes.length := by
    intro t j t' h hstep
    refine ⟨h.step hl hkey hi hr hstep ⟨trivial, trivial⟩, ?_⟩
    rcases h.toCast.wins_or_loses hstep with ⟨j, l', r', -, hwins⟩ | ⟨hlength, -⟩
    · exact absurd hwins (h.not_wins hl hkey)
    · exact hlength _ rfl
  obtain ⟨s', hrun, h', hsettled, hlast⟩ := exists_reached hlowers hturn
    (fun h hle hprompt => h.step hl hkey hi hr (.pass hle) ⟨hprompt, trivial⟩) h lastInstant
  refine ⟨s', hrun.mono hrule, fun j hj => ?_⟩
  cases hp : s'.process? j with
  | none => rfl
  | some p =>
    obtain ⟨c, hc⟩ : ∃ c, contenders[j]? = some c := ⟨_, List.getElem?_eq_getElem hj⟩
    have hstage : c.Stage key s'.now p := by simpa only [Role, hc] using h'.role j p hp
    have hfares := hstage.fares (h'.sound.fit j p hp) h'.sound.wrap h'.latency
    obtain ⟨due?, hwaits⟩ := hsettled j p hp
    rw [hwaits] at hfares
    have hne : j ≠ i := by
      rintro rfl
      rw [h'.isOver] at hp
      cases hp
    obtain ⟨t, ht, -⟩ := hl j c hc hne
    have hlt : s'.now.nanos < t.nanos := hfares.1 t ht
    have hlast : lastInstant.nanos ≤ s'.now.nanos := hlast
    have := t.nanos_lt
    simp only [lastInstant] at hlast
    omega

/-! ## The main theorem -/

/-- What has become of a contest that a contender has won: until its lease is over
the key has its token, and every other contender that is over has lost.  Nobody goes
on after its deadline, and all can end. -/
structure Outcome (key : String) (contenders : List Contender) (i : Nat) (l : Lease)
    (es : List (Ending Result)) (s : Locks) : Prop where
  value : ∀ t, s.now ≤ t → l.Covers t → s.world.service.value? t key = some l.owner
  told : ∀ j, j < contenders.length → j ≠ i → s.process? j = none → ∃ e ∈ es, e.number = j
  lost : ∀ e ∈ es, e.number < contenders.length →
    e.number ≠ i ∧ e.result = .failed (.timedOut key)
  inTime : ∀ j c p, contenders[j]? = some c → s.process? j = some p → j ≠ i ∧ c.InTime s.now
  ends : ∃ s', Run turn Contested s s' ∧ ∀ j, j < contenders.length → s'.process? j = none

theorem Decided.outcome {s₂ : Locks} {cs : List (Choice Process)} {es : List (Ending Result)}
    (h : Decided key contenders i l r own s₂) (hl : Outlived contenders i l) (hkey : l.key = key)
    (hi : i < contenders.length) (hr : r.For l) (hrun : History turn Contested s₂ cs es s) :
    Decided key contenders i l r own s ∧
      ∀ e ∈ es, e.number < contenders.length → e.result = .failed (.timedOut key) := by
  refine hrun.endings (I := Decided key contenders i l r own) (fun h hstep hrule => ?_) h
  refine ⟨h.step hl hkey hi hr hstep hrule, ?_⟩
  rcases h.toCast.wins_or_loses hstep with ⟨j, l', r', -, hwins⟩ | ⟨-, hloses⟩
  · exact absurd hwins (h.not_wins hl hkey)
  · exact hloses

/-- The first contender whose attempt arrives at the store, while it can be reached,
is told of its lease.  If all others have their deadlines within the time of the
lease, then none of them ever wins, whatever becomes of the refreshes. -/
theorem exactly_one_winner {s₀ s₁ s₂ : Locks} {cs₀ : List (Choice Process)}
    {es₀ : List (Ending Result)} (h : Contest key contenders s₀)
    (hbefore : History turn Unattempted s₀ cs₀ es₀ s₁) (hfirst : Attempts s₁ i)
    (havailable : s₁.world.service.store.isAvailable = true)
    (hstep : Step turn s₁ (.turn i) s₂) :
    ∃ c l r, contenders[i]? = some c ∧ Wins s₁ i l r s₂ ∧ l.key = key ∧ l.owner = c.owner ∧
      l.acquiredAt = s₁.now ∧ wholeSeconds? c.lease = some l.duration ∧
      (Outlived contenders i l → ∀ cs es s₃, History turn Contested s₂ cs es s₃ →
        Outcome key contenders i l (es₀ ++ es) s₃) := by
  obtain ⟨h₁, hlost₀⟩ := hbefore.endings (I := Undecided key contenders)
    (fun h hstep hrule => h.step hstep hrule) h.undecided
  obtain ⟨l, r, hwins⟩ := h₁.toCast.first_wins hfirst havailable h₁.free hstep
  obtain ⟨c, hc, -, hkey, howner, hduration⟩ := h₁.toCast.of_wins hwins
  obtain ⟨-, hat, hr, -⟩ := hwins.facts h₁.sound
  refine ⟨c, l, r, hc, hwins, hkey, howner, hat, hduration, fun hl cs es s₃ hafter => ?_⟩
  have hi : i < contenders.length := List.getElem?_eq_some_iff.mp hc |>.1
  have h₂ := h₁.decided hwins
  obtain ⟨h₃, hlost⟩ := h₂.outcome hl hkey hi hr hafter
  obtain ⟨p, w, records, hp, -, hs₂⟩ := hwins
  refine ⟨?_, ?_, ?_, ?_, h₃.exists_over hl hkey hi hr⟩
  · intro t hle hcovers
    rw [← hkey]
    exact (h₃.kept (hcovers.mono hle)).value? h₃.sound hcovers
  · intro j hj hne hover
    cases hj₁ : s₁.process? j with
    | some q =>
      have hj₂ : s₂.process? j = some q := by
        rw [hs₂, System.process?_advance_of_ne (System.lt_length_of_process? hj₁) hne, hj₁]
      obtain ⟨e, he, hnumber⟩ := hafter.exists_ending hj₂ hover
      exact ⟨e, List.mem_append_right _ he, hnumber⟩
    | none =>
      have hj₀ : s₀.process? j = some ((contenders[j]).process key) := by
        simp [System.process?, h.processes, hj]
      obtain ⟨e, he, hnumber⟩ := hbefore.exists_ending hj₀ hj₁
      exact ⟨e, List.mem_append_left _ he, hnumber⟩
  · intro e he hlt
    rcases List.mem_append.mp he with he | he
    · refine ⟨?_, hlost₀ e he hlt⟩
      rintro rfl
      rw [hbefore.over_of_ending he] at hp
      cases hp
    · refine ⟨?_, hlost e he hlt⟩
      rintro rfl
      exact hafter.not_over_of_ending he (Nat.lt_of_lt_of_le hlt h₂.length) h₂.isOver
  · intro j c' q hc' hq
    refine ⟨?_, ?_⟩
    · rintro rfl
      rw [h₃.isOver] at hq
      cases hq
    · have hstage : c'.Stage key s₃.now q := by simpa only [Role, hc'] using h₃.role j q hq
      exact hstage.inTime

/-- Two contenders for a key, at different lock managers, before a store that fails
every refresh. -/
def rivals : List Contender :=
  [⟨0, "a", .ofSeconds 10, .ofSeconds 1, "", .epoch, by decide, by decide⟩,
    ⟨1, "b", .ofSeconds 2, .ofSeconds 5, "", .epoch, by decide, by decide⟩]

/-- The contenders for a key at one store, before they begin. -/
def rivalry : Locks where
  now := .epoch
  world := {
    service := { store := .faulty { refreshFails := true } }
    managers := [{ config := { backoff := .ofSeconds 1 } }, {}] }
  processes := rivals.map fun c => some (c.process "k")

/-- The second contender attempts first.  It has the key for two seconds, and the
other one gives up after one second. -/
theorem exactly_one_winner_of_rivals :
    ∃ s₁ s₂ s₃ cs₀ es₀ cs es l, Contest "k" rivals rivalry ∧
      History turn Unattempted rivalry cs₀ es₀ s₁ ∧ Attempts s₁ 1 ∧
      s₁.world.service.store.isAvailable = true ∧ Step turn s₁ (.turn 1) s₂ ∧
      Outlived rivals 1 l ∧ History turn Contested s₂ cs es s₃ ∧
      s₃.now = { nanos := 2000000000 } ∧ s₃.world.service.value? s₃.now "k" = some "b" ∧
      ∃ e ∈ es₀ ++ es, e.number = 0 ∧ e.result = .failed (.timedOut "k") := by
  have hcontest : Contest "k" rivals rivalry := by
    refine ⟨rfl, by decide, rfl, fun i => ?_, rfl, by decide, rfl⟩
    rcases i with _ | _ | i
    · decide
    · decide
    · exact Nat.succ_pos _
  obtain ⟨s₁, s₂, hbefore, hat, hfirst, havailable, hstep, s₃, hafter, hnow, hover⟩ :
      ∃ s₁ s₂, Run turn Unattempted rivalry s₁ ∧ s₁.now = .epoch ∧ Attempts s₁ 1 ∧
        s₁.world.service.store.isAvailable = true ∧ Step turn s₁ (.turn 1) s₂ ∧
        ∃ s₃, Run turn Contested s₂ s₃ ∧ s₃.now = { nanos := 2000000000 } ∧
          (s₃.process? 0).isNone = true :=
    ⟨_, _, Run.of_follow? [.turn 0, .turn 1, .turn 1, .turn 0, .turn 1, .turn 0] rfl, rfl,
      by decide, rfl, .of_step? rfl, _, Run.of_isSome [
        .turn 0, .turn 2, .pass { nanos := 1000000000 }, .turn 2, .turn 0, .turn 2,
        .pass { nanos := 2000000000 }] (by decide +kernel), by decide +kernel, by decide +kernel⟩
  obtain ⟨cs₀, es₀, hbefore⟩ := hbefore.exists_history
  obtain ⟨cs, es, hafter⟩ := hafter.exists_history
  obtain ⟨c, l, r, hc, hwins, hkey, howner, hl, hduration, houtcome⟩ :=
    exactly_one_winner hcontest hbefore hfirst havailable hstep
  cases hc
  have hwritten : l.duration = .ofSeconds 2 := by
    have hlease : wholeSeconds? (.ofSeconds 2) = some (.ofSeconds 2) := by decide
    exact (Option.some.inj (hlease.symm.trans hduration)).symm
  have houtlived : Outlived rivals 1 l := by
    intro j c hc hne
    rcases j with _ | _ | j
    · cases hc
      refine ⟨_, rfl, ?_⟩
      rw [Lease.Covers, hl, hat, hwritten]
      decide
    · exact absurd rfl hne
    · cases hc
  have h := houtcome houtlived cs es s₃ hafter
  obtain ⟨e, he, hnumber⟩ := h.told 0 (by decide) (by decide) (Option.isNone_iff_eq_none.mp hover)
  refine ⟨s₁, s₂, s₃, cs₀, es₀, cs, es, l, hcontest, hbefore, hfirst, havailable, hstep, houtlived,
    hafter, hnow, ?_, e, he, hnumber, (h.lost e he (by rw [hnumber]; decide)).2⟩
  rw [h.value s₃.now (Nat.le_refl _) ?_, howner]
  rw [Lease.Covers, hl, hat, hwritten, hnow]
  decide

end Leasehold.Lock
