import Leasehold.Proofs.Lock.Quiescence
import Leasehold.Proofs.Lock.Runs

/-!
# Who acquires a lock with a timeout

A `Contender` begins to acquire a key at some instant, with a timeout.  As long as
time passes promptly and a store takes no time to set a key, it is always in one of
five stages, and none of them lasts beyond its deadline (`Contender.Stage`).  On its
turn it goes on to another stage, or it is told that its time is over, or it wins
(`Contender.Stage.fares`).
-/

namespace Leasehold.Lock

open Simulation

/-- Somebody who acquires a lock, with a lease that is accepted and a timeout. -/
structure Contender where
  /-- The lock manager that is asked. -/
  manager : Nat
  /-- The token of the contender. -/
  owner : String
  /-- The lease that is asked for. -/
  lease : Duration
  /-- How long the contender tries. -/
  timeout : Duration
  /-- The name of the token that cancels the acquisition. -/
  cancel : String
  /-- When the contender begins. -/
  start : Instant
  isLease : IsLease lease
  timeout_pos : timeout.isZero = false

namespace Contender

/-- What a contender does. -/
def action (c : Contender) (key : String) : Action :=
  .acquire c.manager key c.owner c.lease c.timeout c.cancel

/-- A contender that has not begun. -/
def process (c : Contender) (key : String) : Process := .later (some c.start) (c.action key)

/-- When the time of a contender is over. -/
def deadline? (c : Contender) : Option Instant := c.start.after? c.timeout

/-- The deadline of a contender has not passed. -/
def InTime (c : Contender) (now : Instant) : Prop := ∀ t, c.deadline? = some t → now ≤ t

/-- The bid of a contender. -/
structure Bids (c : Contender) (key : String) (bid : Bid) : Prop where
  key : bid.key = key
  owner : bid.owner = c.owner
  ttl : wholeSeconds? c.lease = some bid.ttl

/-- How far a contender has come at an instant. -/
inductive Stage (c : Contender) (key : String) (now : Instant) : Process → Prop where
  | coming : now ≤ c.start → Stage c key now (c.process key)
  | beginning : now = c.start → Stage c key now (.action (c.action key))
  | attempting {bid attempts} :
      c.Bids key bid → c.InTime now → Stage c key now (.attempting bid c.deadline? attempts)
  /-- The attempt has arrived at the store. -/
  | asking {bid attempts call due} :
      c.Bids key bid → c.InTime now → call.stage = .approaching (some due) → due ≤ now →
      Stage c key now (.asking bid c.deadline? attempts (.single call))
  | resting {bid attempts due?} :
      c.Bids key bid → c.InTime now → Stage c key now (.resting bid c.deadline? attempts due?)

/-- The turn of a contender: it waits before its deadline, and no longer than its
stage may last, goes on to another stage, learns that its time is over, or wins. -/
def Fares (c : Contender) (key : String) (now : Instant) (p : Process) :
    Turn World Process Result → Prop
  | .waits due? =>
      (∀ t, c.deadline? = some t → now < t) ∧
        ∀ t, now ≤ t → (∀ due, due? = some due → t ≤ due) → c.Stage key t p
  | .moves _ next _ => c.Stage key now next
  | .ends _ result started _ =>
      (result = .failed (.timedOut key) ∧ started = []) ∨
        ∃ l r, result = .lease l ∧ started = [.renewing r .starting]

variable {c : Contender} {key : String} {now : Instant} {w : World} {p : Process} {bid : Bid}

theorem inTime_start (c : Contender) : c.InTime c.start :=
  fun _ h => Instant.le_of_after?_eq_some h

theorem InTime.of_le {t : Instant} (h : c.InTime t) (hle : now ≤ t) : c.InTime now :=
  fun u hu => Nat.le_trans hle (h u hu)

theorem Stage.inTime (h : c.Stage key now p) : c.InTime now := by
  cases h with
  | coming hle => exact c.inTime_start.of_le hle
  | beginning hnow => rw [hnow]; exact c.inTime_start
  | attempting _ htime => exact htime
  | asking _ htime => exact htime
  | resting _ htime => exact htime

@[simp] theorem fares_after {t : Turn World Process Result} {records : List Log.Record} :
    c.Fares key now p (t.after records) ↔ c.Fares key now p t := by
  cases t <;> rfl

theorem fares_gaveUp {attempts : Nat} (hbid : c.Bids key bid) :
    c.Fares key now p (gaveUp w bid attempts) :=
  .inl ⟨by rw [hbid.key], rfl⟩

/-- A contender that has begun makes its first attempt. -/
theorem fares_acquire {manager : Nat} (h : now = c.start) :
    c.Fares key now p (acquire w now manager key c.owner c.lease c.timeout c.cancel) := by
  have hwritten : wholeSeconds? c.lease = some (Duration.ofSeconds (leaseSeconds c.lease)) :=
    if_pos c.isLease
  have hdeadline : (if c.timeout.isZero then none else now.after? c.timeout) = c.deadline? := by
    rw [c.timeout_pos, h]
    rfl
  simp only [acquire, hwritten, hdeadline]
  exact .attempting ⟨rfl, rfl, hwritten⟩ (h ▸ c.inTime_start)

/-- After an attempt a contender has won, or it rests. -/
theorem fares_attempted {attempts : Nat} {a : Answer} (hbid : c.Bids key bid)
    (htime : c.InTime now) : c.Fares key now p (attempted w now bid c.deadline? attempts a) := by
  cases a with
  | acquired => exact .inr ⟨_, _, rfl, rfl⟩
  | occupied | value | done | removed | failed => exact .resting hbid htime

/-- Nobody waits beyond the earlier of two instants. -/
theorem le_of_earliest {t : Instant} {u? v? : Option Instant}
    (h : ∀ due, earliest u? v? = some due → t ≤ due) : ∀ u, u? = some u → t ≤ u := by
  rintro u rfl
  cases v? with
  | none => exact h u rfl
  | some v =>
    simp only [earliest] at h
    split at h
    next => exact h u rfl
    next hle => exact Nat.le_trans (h v rfl) (Nat.le_of_not_le hle)

theorem le_of_earliest_right {t : Instant} {u? v? : Option Instant}
    (h : ∀ due, earliest u? v? = some due → t ≤ due) : ∀ v, v? = some v → t ≤ v := by
  rintro v rfl
  cases u? with
  | none => exact h v rfl
  | some u =>
    simp only [earliest] at h
    split at h
    next hle => exact Nat.le_trans (h u rfl) hle
    next => exact h v rfl

theorem Stage.fares (h : c.Stage key now p) (hfit : p.Fit w now)
    (hwrap : w.service.wrap ≠ .primitive) (hlatency : w.service.latency .set = .zero) :
    c.Fares key now p (turn now w p) := by
  cases h with
  | coming hle =>
    simp only [process, turn]
    split
    next hdue =>
      have hstart : c.start ≤ now := of_decide_eq_true hdue
      have hnow : now = c.start := Instant.ext (Nat.le_antisymm hle hstart)
      exact .beginning hnow
    next hdue =>
      refine ⟨fun t ht => ?_, fun t _ ht => .coming (ht _ rfl)⟩
      exact Nat.lt_of_lt_of_le (lt_of_not_isDue hdue) (Instant.le_of_after?_eq_some ht)
  | beginning hnow => exact fares_acquire hnow
  | attempting hbid htime =>
    simp only [turn]
    split
    next => exact fares_gaveUp hbid
    next =>
      rw [Service.errand_eq_single hwrap]
      have hstage : ∀ k v ttl, (w.service.call now (.set k v ttl)).stage =
          .approaching (some now) := by
        intro k v ttl
        rw [Service.call, Request.kind, hlatency, Instant.after?_zero]
      exact .asking hbid htime (hstage _ _ _) (Nat.le_refl _)
  | asking hbid htime hstage hdue =>
    have hrequest := hfit.request_of_bid rfl rfl
    obtain ⟨a, store, -, hturn⟩ :=
      Service.callTurn_arrives (s := w.service) hstage hdue (by simp [hrequest])
    rw [turn_call rfl, hturn]
    exact fares_after.mpr (fares_attempted hbid htime)
  | resting hbid htime =>
    simp only [turn]
    split
    next => exact fares_gaveUp hbid
    split
    next => exact .attempting hbid htime
    next hover _ =>
      rw [not_or] at hover
      refine ⟨fun t ht => ?_, fun t _ ht => .resting hbid (le_of_earliest ht)⟩
      rw [ht] at hover
      exact lt_of_not_isDue hover.2

theorem Stage.bids (h : c.Stage key now p) (hbid : p.bid? = some bid) : c.Bids key bid := by
  cases h with
  | coming | beginning | attempting | resting => cases hbid
  | asking hbids => cases hbid; exact hbids

/-- A contender whose attempt arrives at a free key wins. -/
theorem Stage.wins (h : c.Stage key now p) (hfit : p.Fit w now) (hbid : p.bid? = some bid)
    (havailable : w.service.store.isAvailable = true) (hfree : w.service.live? now key = none) :
    ∃ w' l r records, turn now w p = .ends w' (.lease l) [.renewing r .starting] records := by
  cases h with
  | coming | beginning | attempting | resting => cases hbid
  | @asking bid _ call _ hbids _ hstage hdue =>
    have hrequest := hfit.request_of_bid rfl rfl
    rw [hbids.key] at hrequest
    obtain ⟨a, store, hreceive, hturn⟩ :=
      Service.callTurn_arrives (s := w.service) hstage hdue (by simp [hrequest])
    rw [hrequest] at hreceive
    obtain ⟨store', hset⟩ := Store.receive_set_free bid.owner bid.ttl havailable hfree
    rw [hset] at hreceive
    cases hreceive
    rw [turn_call rfl, hturn]
    exact ⟨_, _, _, _, rfl⟩

end Contender

end Leasehold.Lock
