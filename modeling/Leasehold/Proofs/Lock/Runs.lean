import Leasehold.Proofs.Lock.Touch

/-!
# Runs of lock managers

A run begins in a `Fresh` system: nothing is registered and nothing is under
way, but the store may hold any entries, and its switches, its latencies and the
settings of the lock managers may be anything.  The rule `Admitted` lets users
do what they like, in any order and at any time, as long as the lock managers
alone write to the store.

Every system that a run reaches is `Sound`, and so each of its steps is a deed
(`Sound.doing`).  `Wins` says that a process acquires a lock, and `Wins.facts`
what follows from it.  `Wins.preserves` is the induction along a run from a win.
-/

namespace Leasehold.Lock

open Simulation

/-- Lock managers, what goes on with them, and the time. -/
abbrev Locks := System World Process

/-! ## Rules and runs -/

/-- A process that users may start. -/
def Process.Admitted (w : World) : Process → Prop
  | .action a => a.Fit w
  | .later _ a => a.Fit w
  | _ => False

/-- Users start actions of their own only, and none that writes to the store. -/
def Admitted : Rule World Process := fun s c _ =>
  match c with
  | .start p => p.Admitted s.world
  | .turn _ => True
  | .pass _ => True

instance (w : World) (a : Action) : Decidable (a.Fit w) := by
  unfold Action.Fit
  split <;> infer_instance

instance (w : World) (p : Process) : Decidable (p.Admitted w) := by
  unfold Process.Admitted
  split <;> infer_instance

instance (s s' : Locks) (c : Choice Process) : Decidable (Admitted s c s') := by
  unfold Admitted
  split <;> infer_instance

/-- A system in which nothing has been done with the lock managers yet. -/
structure Fresh (s : Locks) : Prop where
  face : s.world.service.face = .simulated
  wrap : s.world.service.wrap ≠ .primitive
  registered : ∀ i k, s.world.registered? i k = none
  processes : s.processes = []

/-- One lock manager before a store that fails on demand. -/
def single : Locks where
  now := .epoch
  world := { service := { store := .faulty {} }, managers := [{}] }

theorem fresh_single : Fresh single := by
  refine ⟨rfl, by decide, fun i k => ?_, rfl⟩
  match i with
  | 0 | _ + 1 => rfl

/-- A process wins a lock: it is told of a lease, and a renewal is started. -/
def Wins (s : Locks) (i : Nat) (l : Lease) (r : Renewing) (s' : Locks) : Prop :=
  ∃ p w records, s.process? i = some p ∧
    turn s.now s.world p = .ends w (.lease l) [.renewing r .starting] records ∧
    s' = s.advance i w none [.renewing r .starting]

theorem Wins.step {s s' : Locks} {i : Nat} {l : Lease} {r : Renewing} (h : Wins s i l r s') :
    Step turn s (.turn i) s' := by
  obtain ⟨p, w, records, hp, hturn, rfl⟩ := h
  exact .ends hp hturn

/-- A renewal takes the next number when its lock is won. -/
theorem Wins.process? {s s' : Locks} {i : Nat} {l : Lease} {r : Renewing} (h : Wins s i l r s') :
    s'.process? s.processes.length = some (.renewing r .starting) := by
  obtain ⟨p, w, records, hp, hturn, rfl⟩ := h
  exact System.process?_advance_started s i 0 w none [.renewing r .starting]

/-! ## Lock managers that exist -/

/-- A system whose processes all belong to lock managers that exist. -/
def Placed (s : Locks) : Prop := ∀ i p, s.process? i = some p → p.Placed s.world

/-- What a choice does to the registries. -/
inductive Touching (s : Locks) : Choice Process → Locks → Prop where
  | touch {i p w' next? started lease?} :
      s.process? i = some p → Touch s.now s.world p w' next? started lease? →
      (∀ l r, lease? = some l → started = [.renewing r .starting] →
        Wins s i l r (s.advance i w' next? started)) →
      Touching s (.turn i) (s.advance i w' next? started)
  | start (p) : Touching s (.start p) (s.add p)
  | pass {t} : Touching s (.pass t) (s.passTo t)

section

variable {s s' : Locks} {c : Choice Process}

theorem Placed.touching (hs : Placed s) (h : Step turn s c s') : Touching s c s' := by
  cases h with
  | moves hp hturn =>
    have htouch := turn_touches s.now (hs _ _ hp)
    rw [hturn] at htouch
    exact .touch hp htouch (by rintro _ _ ⟨⟩)
  | @ends i p w result started records hp hturn =>
    have htouch := turn_touches s.now (hs _ _ hp)
    rw [hturn] at htouch
    refine .touch hp htouch fun l r hlease hstarted => ?_
    cases result with
    | lease =>
      cases hlease
      subst hstarted
      exact ⟨p, w, records, hp, hturn, rfl⟩
    | ok | contended | failed | config | store => cases hlease
  | start p => exact .start p
  | pass => exact .pass

theorem Placed.grows (hs : Placed s) (h : Step turn s c s') : s.world.Grows s'.world := by
  cases hs.touching h with
  | touch _ htouch => exact htouch.grows
  | start | pass => exact .refl _

theorem Placed.step (hs : Placed s) (h : Step turn s c s')
    (hstart : ∀ p, c = .start p → p.Placed s.world) : Placed s' := by
  intro j q hq
  cases hs.touching h with
  | touch hp htouch =>
    obtain ⟨-, hq⟩ | ⟨-, hq⟩ | ⟨k, -, hq⟩ := System.process?_advance_cases hq
    · exact (hs _ _ hq).mono htouch.grows
    · exact htouch.placed_next q hq
    · exact htouch.placed_started (hs _ _ hp) q (List.mem_of_getElem? hq)
  | start p =>
    obtain hq | ⟨-, rfl⟩ := System.process?_add_cases hq
    · exact hs _ _ hq
    · exact hstart _ rfl
  | pass => exact hs _ _ hq

/-- A renewal is the same renewal before a step, or the step is the win that
starts it. -/
theorem Placed.renewal_cases (hs : Placed s) (hstep : Step turn s c s')
    (hstart : ∀ p, c = .start p → p.renewal? = none) {n : Nat} {r : Renewing}
    {stage : RenewalStage} (h : s'.process? n = some (.renewing r stage)) :
    (∃ stage₀, s.process? n = some (.renewing r stage₀)) ∨
      (n = s.processes.length ∧ ∃ i l, c = .turn i ∧ Wins s i l r s') := by
  cases hs.touching hstep with
  | @touch i p w' next? started lease? hp htouch hwins =>
    obtain ⟨-, hold⟩ | ⟨rfl, hnext⟩ | ⟨k, rfl, hnew⟩ := System.process?_advance_cases h
    · exact .inl ⟨_, hold⟩
    · obtain ⟨stage₀, rfl⟩ := Process.eq_renewing (htouch.renewal?_next hnext).symm
      exact .inl ⟨_, hp⟩
    · obtain ⟨l, r', hlease, rfl⟩ := htouch.of_started (List.mem_of_getElem? hnew)
      cases k with
      | zero => cases hnew; exact .inr ⟨rfl, i, l, rfl, hwins _ _ hlease rfl⟩
      | succ k => cases hnew
  | start p =>
    obtain h | ⟨-, rfl⟩ := System.process?_add_cases h
    · exact .inl ⟨_, h⟩
    · cases hstart _ rfl
  | pass => exact .inl ⟨_, h⟩

/-- A process that wins has a bid, and its renewal is registered. -/
theorem Wins.held {i : Nat} {l : Lease} {r : Renewing} (h : Wins s i l r s') (hs : Placed s) :
    ∃ p bid service w, s.process? i = some p ∧ p.bid? = some bid ∧
      bid.manager < s.world.managers.length ∧
      Held (s.world.withService service) s.now bid l r w ∧
      s' = s.advance i w none [.renewing r .starting] := by
  obtain ⟨p, w, records, hp, hturn, rfl⟩ := h
  have htouch := turn_touches s.now (hs _ _ hp)
  rw [hturn] at htouch
  cases htouch with
  | won hbid hheld => exact ⟨p, _, _, w, hp, hbid, (hs _ _ hp).bid hbid, hheld, rfl⟩

end

/-! ## What processes do to a key -/

/-- A release of a key for an owner. -/
def Process.Releases (k owner : String) : Process → Prop
  | .action (.release _ key o) => key = k ∧ o = owner
  | .releasing key o _ => key = k ∧ o = owner
  | _ => False

instance (k owner : String) (p : Process) : Decidable (p.Releases k owner) := by
  unfold Process.Releases
  split <;> infer_instance

/-- A refresh of a key that is under way. -/
def Process.Refreshes (k : String) : Process → Prop
  | .renewing r (.refreshing ..) => r.key = k
  | _ => False

instance (k : String) (p : Process) : Decidable (p.Refreshes k) := by
  unfold Process.Refreshes
  split <;> infer_instance

/-- The next turn of a process is told that it has taken a key. -/
def Process.Takes (w : World) (now : Instant) (k : String) (p : Process) : Prop :=
  p.answer? w now = some .acquired ∧ ∃ bid ∈ p.bid?, bid.key = k

instance (w : World) (now : Instant) (k : String) (p : Process) : Decidable (p.Takes w now k) :=
  inferInstanceAs (Decidable (_ ∧ ∃ bid ∈ p.bid?, bid.key = k))

/-! ## Sound systems -/

/-- A system whose store reads the simulated time, and whose processes are fit. -/
structure Sound (s : Locks) : Prop where
  face : s.world.service.face = .simulated
  wrap : s.world.service.wrap ≠ .primitive
  fit : ∀ i p, s.process? i = some p → p.Fit s.world s.now

/-- What a choice does in a sound system. -/
inductive Doing (s : Locks) : Choice Process → Locks → Prop where
  | deed {i p w' next? started lease?} :
      s.process? i = some p → Deed s.now s.world p w' next? started lease? →
      Doing s (.turn i) (s.advance i w' next? started)
  | start (p) : Doing s (.start p) (s.add p)
  | pass {t} : s.now ≤ t → Doing s (.pass t) (s.passTo t)

variable {s s' : Locks} {c : Choice Process}

/-- Every step of a sound system is a deed, the start of a process, or a lapse
of time. -/
theorem Sound.doing (hs : Sound s) (h : Step turn s c s') : Doing s c s' := by
  cases h with
  | moves hp hturn =>
    have hdeed := turn_isDeed (hs.fit _ _ hp) hs.wrap
    rw [hturn] at hdeed
    exact .deed hp hdeed
  | ends hp hturn =>
    have hdeed := turn_isDeed (hs.fit _ _ hp) hs.wrap
    rw [hturn] at hdeed
    exact .deed hp hdeed
  | start p => exact .start p
  | pass hle => exact .pass hle

theorem Process.Admitted.fit {w : World} {now : Instant} {p : Process} (h : p.Admitted w) :
    p.Fit w now := by
  cases p with
  | action a => exact h
  | later due? a => exact h
  | attempting | asking | resting | trying | releasing | renewing | store => cases h

theorem Sound.step (hs : Sound s) (h : Step turn s c s') (hrule : Admitted s c s') : Sound s' := by
  cases hs.doing h with
  | deed hp hdeed =>
    have hle := hdeed.le (hs.fit _ _ hp)
    refine ⟨hle.face.trans hs.face, ?_, fun j q hq => ?_⟩
    · rw [System.world_advance, hle.wrap]
      exact hs.wrap
    · obtain ⟨-, hq⟩ | ⟨-, hq⟩ | ⟨k, -, hq⟩ := System.process?_advance_cases hq
      · exact (hs.fit _ _ hq).mono hle (Nat.le_refl _)
      · exact hdeed.fit_next (hs.fit _ _ hp) hs.wrap q hq
      · exact hdeed.fit_started (hs.fit _ _ hp) q (List.mem_of_getElem? hq)
  | start p =>
    refine ⟨hs.face, hs.wrap, fun j q hq => ?_⟩
    obtain hq | ⟨-, rfl⟩ := System.process?_add_cases hq
    · exact hs.fit _ _ hq
    · exact Process.Admitted.fit hrule
  | pass hle =>
    exact ⟨hs.face, hs.wrap, fun j q hq => (hs.fit _ _ hq).mono (.refl _) hle⟩

/-- Every step only moves the world forward. -/
theorem Sound.world_le (hs : Sound s) (h : Step turn s c s') : s.world.Le s'.world := by
  cases hs.doing h with
  | deed hp hdeed => exact hdeed.le (hs.fit _ _ hp)
  | start p => exact .refl _
  | pass => exact .refl _

theorem Fresh.sound (h : Fresh s) : Sound s := by
  refine ⟨h.face, h.wrap, fun i p hp => ?_⟩
  rw [System.process?, h.processes] at hp
  cases hp

/-- A run under a rule that admits no more than `Admitted` keeps a system sound. -/
theorem Sound.run {rule : Rule World Process} (himp : ∀ {s c s'}, rule s c s' → Admitted s c s')
    (hs : Sound s) (h : Run turn rule s s') : Sound s' :=
  h.preserves (fun hs hstep hrule => hs.step hstep (himp hrule)) hs

/-- A process that wins waits for an answer to its bid, and the answer is that
the key was free. -/
theorem Wins.deed {i : Nat} {l : Lease} {r : Renewing} (h : Wins s i l r s') (hs : Sound s) :
    ∃ p bid c service w, s.process? i = some p ∧ p.Fit s.world s.now ∧ p.call? = some c ∧
      p.bid? = some bid ∧ Service.Served s.now s.world.service c .acquired service ∧
      Held (s.world.withService service) s.now bid l r w ∧
      s' = s.advance i w none [.renewing r .starting] := by
  obtain ⟨p, w, records, hp, hturn, rfl⟩ := h
  have hfit := hs.fit _ _ hp
  have hdeed := turn_isDeed hfit hs.wrap
  rw [hturn] at hdeed
  obtain ⟨bid, c, service, r', hc, hbid, hr, hserved, hheld⟩ := hdeed.of_lease hfit
  cases hr
  exact ⟨p, bid, c, service, w, hp, hfit, hc, hbid, hserved, hheld, rfl⟩

theorem Sound.placed (hs : Sound s) : Placed s := fun i p hp => (hs.fit i p hp).placed

/-- Users do not start renewals. -/
theorem Admitted.renewal? (h : Admitted s c s') : ∀ p, c = .start p → p.renewal? = none := by
  rintro p rfl
  cases p with
  | renewing => cases h
  | action | later | attempting | asking | resting | trying | releasing | store => rfl

/-- A renewal is the same renewal before a step, or the step is the win that
starts it. -/
theorem renewal_cases (hs : Sound s) (hstep : Step turn s c s') (hrule : Admitted s c s') {n : Nat}
    {r : Renewing} {stage : RenewalStage} (h : s'.process? n = some (.renewing r stage)) :
    (∃ stage₀, s.process? n = some (.renewing r stage₀)) ∨
      (n = s.processes.length ∧ ∃ i l, c = .turn i ∧ Wins s i l r s') :=
  hs.placed.renewal_cases hstep hrule.renewal? h

/-- Who wins a lock is told so on that turn. -/
theorem Wins.takes {i : Nat} {l : Lease} {r : Renewing} (h : Wins s i l r s') (hs : Sound s) :
    ∃ p, s.process? i = some p ∧ p.Takes s.world s.now r.key := by
  obtain ⟨p, w, records, hp, hturn, rfl⟩ := h
  have hdeed := turn_isDeed (hs.fit _ _ hp) hs.wrap
  rw [hturn] at hdeed
  obtain ⟨hacquired, bid, hbid, -, hkey⟩ := hdeed.acquired_of_started rfl
  exact ⟨p, hp, hacquired, bid, hbid, hkey⟩

/-! ## The renewal of a lease -/

/-- The process of a number, while it is not over, is a renewal. -/
structure IsRenewal (s : Locks) (n : Nat) (r : Renewing) : Prop where
  lt : n < s.processes.length
  same : ∀ p, s.process? n = some p → ∃ stage, p = .renewing r stage

theorem Wins.isRenewal {i : Nat} {l : Lease} {r : Renewing} (h : Wins s i l r s') :
    IsRenewal s' s.processes.length r := by
  refine ⟨System.lt_length_of_process? h.process?, fun p hp => ?_⟩
  rw [h.process?] at hp
  cases hp
  exact ⟨_, rfl⟩

/-- A renewal keeps its number. -/
theorem IsRenewal.step {n : Nat} {r : Renewing} (hr : IsRenewal s n r) (hs : Sound s)
    (h : Step turn s c s') : IsRenewal s' n r := by
  refine ⟨Nat.lt_of_lt_of_le hr.lt h.length_le, fun q hq => ?_⟩
  cases hs.doing h with
  | deed hp hdeed =>
    obtain ⟨-, hq'⟩ | ⟨rfl, hq'⟩ | ⟨k, rfl, -⟩ := System.process?_advance_cases hq
    · exact hr.same q hq'
    · obtain ⟨stage, rfl⟩ := hr.same _ hp
      exact hdeed.renewing q hq'
    · exact absurd hr.lt (Nat.not_lt.mpr (Nat.le_add_right _ _))
  | start p => exact hr.same q (by rwa [System.process?_add_of_lt hr.lt] at hq)
  | pass => exact hr.same q hq

/-- What every step keeps, while the system is sound and the renewal of a win goes
on under its number, holds all along a run from the win. -/
theorem Wins.preserves {rule : Rule World Process} {I : Locks → Prop} {s₁ s₂ : Locks} {i : Nat}
    {l : Lease} {r : Renewing} (hwins : Wins s i l r s₁) (hs : Sound s)
    (himp : ∀ {t c t'}, rule t c t' → Admitted t c t')
    (hstep : ∀ {t c t'}, Sound t → IsRenewal t s.processes.length r → I t → Step turn t c t' →
      rule t c t' → I t')
    (hI : I s₁) (hrun : Run turn rule s₁ s₂) : Sound s₂ ∧ I s₂ := by
  have hinv : Sound s₂ ∧ IsRenewal s₂ s.processes.length r ∧ I s₂ := by
    refine hrun.preserves (I := fun t => Sound t ∧ IsRenewal t s.processes.length r ∧ I t)
      (fun ⟨ht, hown, hI⟩ h hrule => ?_) ⟨hs.step hwins.step trivial, hwins.isRenewal, hI⟩
    exact ⟨ht.step h (himp hrule), hown.step ht h, hstep ht hown hI h hrule⟩
  exact ⟨hinv.1, hinv.2.2⟩

/-- The renewal of a lease. -/
structure Renewing.For (r : Renewing) (l : Lease) : Prop where
  key : r.key = l.key
  acquiredAt : r.acquiredAt = l.acquiredAt
  interval : r.interval = l.renewalInterval
  written : ∃ n, IsWritten l.duration r.interval n

theorem Renewing.For.isWritten {r : Renewing} {l : Lease} (h : r.For l) :
    ∃ n, IsWritten l.duration l.renewalInterval n := by
  obtain ⟨n, hn⟩ := h.written
  exact ⟨n, h.interval ▸ hn⟩

theorem Renewing.For.duration_le {r : Renewing} {l : Lease} (h : r.For l) :
    l.duration.nanos ≤ l.renewalInterval.nanos + l.renewalInterval.nanos := by
  obtain ⟨n, hn⟩ := h.isWritten
  exact hn.duration_le

theorem Renewing.For.interval_le {r : Renewing} {l : Lease} (h : r.For l) :
    l.renewalInterval.nanos ≤ l.duration.nanos := by
  obtain ⟨n, hn⟩ := h.isWritten
  exact hn.interval_le

/-- What follows from a win: the lease begins, its renewal is for it, the key was
free, and now it has the token of the owner for the duration of the lease. -/
theorem Wins.facts {i : Nat} {l : Lease} {r : Renewing} (h : Wins s i l r s') (hs : Sound s) :
    s'.now = s.now ∧ l.acquiredAt = s.now ∧ r.For l ∧
      s.world.service.live? s.now l.key = none ∧
      s'.world.service.stored? l.key = some ⟨l.owner, s.now.after? l.duration⟩ := by
  obtain ⟨p, bid, c, service, w, -, hfit, hc, hbid, hserved, hheld, rfl⟩ := h.deed hs
  have hrequest := hfit.request_of_bid hc hbid
  have hentry := hserved.entry
  rw [hrequest, hs.face] at hentry
  obtain ⟨hlease, hwritten⟩ := hheld.lease, (hfit.bid hbid).lease
  subst hlease
  refine ⟨rfl, rfl, ?_, ?_⟩
  · rw [hheld.renewal]
    exact ⟨rfl, rfl, rfl, hwritten⟩
  · obtain ⟨e, he, -⟩ | ⟨hanswer, he⟩ := hentry
    · cases he
    · cases hlive : s.world.service.live? s.now bid.key with
      | some e => simp [Request.serve, Request.key, hlive] at hanswer
      | none =>
        refine ⟨rfl, ?_⟩
        simp only [Request.serve, Request.key, hlive, Face.read] at he
        rw [System.world_advance, hheld.service]
        exact he

end Leasehold.Lock
