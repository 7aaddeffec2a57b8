import Mathlib.Algebra.Order.Floor.Div
import Leasehold.Proofs.Lock.Contenders
import Leasehold.Proofs.Lock.Renaming

/-!
# The turns of somebody who acquires a lock

A `Seeker` begins to acquire a key at some instant, before a store that answers its
attempts at once, whatever it answers (`Seeker.AnswersAtOnce`).  That may be the store of
the world (`Seeker.answersAtOnce_turn`), or one that answers anything at any time
(`Seeker.answersAtOnce_answeredBy`).

Between two turns a seeker is in one of four stages, and each of them says what it has
done so far, with the time at which it did (`Seeker.Stage`).  On its turn it waits no
longer than its stage may last, goes on to another stage, or comes to its end
(`Seeker.Stage.fares`).
-/

namespace Leasehold

open Simulation

namespace Instant

variable {t u : Instant} {d : Duration}

/-- A duration after an instant is over when the clock has run that long. -/
theorem isDue_after?_iff : isDue u (t.after? d) = true ↔ t.nanos + d.nanos ≤ u.nanos := by
  unfold after?
  split
  next => exact decide_eq_true_iff
  next hlimit =>
    have := u.nanos_lt
    exact iff_of_false Bool.false_ne_true (by omega)

/-- Nothing comes after the end of a duration that no clock can read. -/
theorem nanos_le_of_after? (h : ∀ v, t.after? d = some v → u ≤ v) :
    u.nanos ≤ t.nanos + d.nanos := by
  unfold after? at h
  split at h
  next => exact h _ rfl
  next hlimit =>
    have := u.nanos_lt
    omega

end Instant

namespace Lock

/-! ## What is written down -/

/-- What an acquisition asks of its store and hears from it, and how it ends. -/
inductive Act where
  /-- A request goes out. -/
  | asks (r : Request)
  /-- An answer comes. -/
  | hears (a : Answer)
  /-- It is over. -/
  | ends (r : Result)
deriving DecidableEq

/-- The request that goes out on a turn, or the end. -/
def Act.ofTurn (p : Process) : Turn World Process Result → List Act
  | .waits _ => []
  | .moves _ q _ => if p.call?.isSome then [] else q.call?.toList.map (.asks ·.request)
  | .ends _ r _ _ => [.ends r]

/-- What a process does on its turn, with the time on the clock, if it hears from the
store what `reply?` says. -/
def Process.acts (turns : Behaviour World Process Result)
    (reply? : Instant → World → Call → Option Answer) (now : Instant) (w : World) (p : Process) :
    List (Nat × Act) :=
  ((p.call?.bind (reply? now w)).toList.map Act.hears ++ Act.ofTurn p (turns now w p)).map
    (now.nanos, ·)

/-- What the store of a world replies to a call on the next turn. -/
def World.reply? (now : Instant) (w : World) (c : Call) : Option Answer :=
  match Service.callTurn now w.service c with
  | .ends _ a _ _ => some a
  | .waits _ | .moves .. => none

/-- The token of an acquisition is cancelled. -/
def Process.IsCancelled (w : World) : Process → Prop
  | .action (.acquire _ _ _ _ _ cancel) =>
      ∃ token ∈ w.names.find? cancel, w.tokens.isCancelled token = true
  | .attempting bid _ _ | .asking bid _ _ _ | .resting bid _ _ _ =>
      w.tokens.isCancelled bid.token = true
  | _ => False

instance (w : World) (p : Process) : Decidable (p.IsCancelled w) := by
  unfold Process.IsCancelled
  split <;> infer_instance

namespace World

/-- The token of a name is cancelled if it has been, and not if it is new. -/
theorem isCancelled_token (w : World) (name : String) :
    (w.token name).2.tokens.isCancelled (w.token name).1 = true ↔
      ∃ token ∈ w.names.find? name, w.tokens.isCancelled token = true := by
  cases h : w.names.find? name with
  | some token =>
    rw [token_of_some h]
    exact ⟨fun hc => ⟨token, rfl, hc⟩, fun ⟨_, heq, hc⟩ => Option.some.inj heq ▸ hc⟩
  | none =>
    rw [token_of_none h]
    have hnew : w.tokens.root.2.isCancelled w.tokens.nodes.length = false :=
      Cancellation.isCancelled_append_self _ _
    rw [hnew]
    exact iff_of_false nofun fun ⟨_, heq, _⟩ => nomatch heq

end World

/-! ## Seekers -/

/-- Somebody who acquires a lock. -/
structure Seeker where
  /-- The lock manager that is asked. -/
  manager : Nat
  /-- The key. -/
  key : String
  /-- The token of the seeker. -/
  owner : String
  /-- The lease that is asked for. -/
  lease : Duration
  /-- How long the seeker tries, and for ever if it is zero. -/
  timeout : Duration
  /-- The name of the token that cancels the acquisition. -/
  cancel : String
  /-- The wait between two attempts. -/
  backoff : Duration
  /-- When the acquisition begins. -/
  start : Instant

namespace Seeker

/-- What a seeker does. -/
def action (x : Seeker) : Action :=
  .acquire x.manager x.key x.owner x.lease x.timeout x.cancel

/-- When the time of a seeker is over. -/
def deadline? (x : Seeker) : Option Instant :=
  if x.timeout.isZero then none else x.start.after? x.timeout

/-- The time to live that a seeker writes. -/
def ttl (x : Seeker) : Duration := .ofSeconds (leaseSeconds x.lease)

/-- What a seeker asks of the store at each attempt. -/
def request (x : Seeker) : Request := .set x.key x.owner x.ttl

/-- The bid of a seeker whose token is known. -/
def bid (x : Seeker) (token : Nat) : Bid := ⟨x.manager, x.key, x.owner, x.ttl, token⟩

/-- The call of an attempt that takes no time. -/
def call (x : Seeker) (now : Instant) : Call := ⟨x.request, now, .approaching (some now)⟩

/-- A seeker whose attempt with the given number has just gone out. -/
def asking (x : Seeker) (now : Instant) (token n : Nat) : Process :=
  .asking (x.bid token) x.deadline? n (.single (x.call now))

/-- The lease of a seeker that wins. -/
def leaseAt (x : Seeker) (now : Instant) : Lease :=
  ⟨x.key, x.owner, x.ttl, renewalInterval x.ttl, now⟩

/-- The time on the clock of the attempt after `n` others. -/
def due (x : Seeker) (n : Nat) : Nat := x.start.nanos + n * x.backoff.nanos

/-- The attempts that were answered as listed. -/
def rounds (x : Seeker) (as : List Answer) : List (Nat × Act) :=
  as.zipIdx.flatMap fun a => [(x.due a.2, .asks x.request), (x.due a.2, .hears a.1)]

/-- A point in time comes before the deadline. -/
def Before (x : Seeker) (nanos : Nat) : Prop := ∀ d, x.deadline? = some d → nanos < d.nanos

/-- The deadline has not passed. -/
def InTime (x : Seeker) (now : Instant) : Prop := ∀ d, x.deadline? = some d → now ≤ d

/-! ## Worlds and stores that serve a seeker -/

/-- Setting a key takes no time, and the lock manager of a seeker waits as long as the
seeker expects. -/
structure Serves (x : Seeker) (w : World) : Prop where
  latency : w.service.latency .set = .zero
  backoff : (w.manager x.manager).config.backoff = x.backoff

/-- A store that answers every attempt of a seeker at once, whatever it answers.  It
comes into a turn only where a call is under way, and there it replies as `reply?` says
and the seeker goes on. -/
structure AnswersAtOnce (x : Seeker) (turns : Behaviour World Process Result)
    (reply? : Instant → World → Call → Option Answer) : Prop where
  unasked : ∀ {now w p}, p.call? = none → turns now w p = turn now w p
  asked : ∀ {now w} (token n : Nat), x.Serves w →
    ∃ a s records, s.latency = w.service.latency ∧ reply? now w (x.call now) = some a ∧
      turns now w (x.asking now token n) =
        (attempted (w.withService s) now (x.bid token) x.deadline? n a).after records

/-! ## What an acquisition has done -/

/-- What a seeker has done that goes on.  Each attempt that is due was made at its
time and before the deadline, and failed; one more may have been made right now. -/
def Underway (x : Seeker) (now : Instant) (l : List (Nat × Act)) : Prop :=
  ∃ as, .acquired ∉ as ∧ now.nanos ≤ x.due as.length ∧ x.InTime now ∧
    (∀ j < as.length, x.due j ≤ now.nanos ∧ x.Before (x.due j)) ∧
    (l = x.rounds as ∨
      now.nanos = x.due as.length ∧ x.Before now.nanos ∧
        l = x.rounds as ++ [(now.nanos, .asks x.request)])

/-- What a seeker has done that is over. -/
inductive Fate (x : Seeker) : List (Nat × Act) → Prop where
  /-- It has won at the first attempt that was not refused, before the deadline. -/
  | won {as t} :
      .acquired ∉ as → t.nanos = x.due as.length → x.Before t.nanos →
      Fate x (x.rounds (as ++ [.acquired]) ++ [(t.nanos, .ends (.lease (x.leaseAt t)))])
  /-- All attempts that come before the deadline have failed. -/
  | timedOut {as d} :
      .acquired ∉ as → x.deadline? = some d →
      as.length = x.timeout.nanos ⌈/⌉ x.backoff.nanos →
      (∀ j, j < as.length ↔ j * x.backoff.nanos < x.timeout.nanos) →
      Fate x (x.rounds as ++ [(d.nanos, .ends (.failed (.timedOut x.key)))])

/-- How far a seeker has come at an instant, and what it has done. -/
inductive Stage (x : Seeker) (now : Instant) : Process → List (Nat × Act) → Prop where
  | beginning : now = x.start → Stage x now (.action x.action) (x.rounds [])
  | attempting {as token} :
      .acquired ∉ as → now.nanos = x.due as.length → x.Before now.nanos →
      Stage x now (.attempting (x.bid token) x.deadline? as.length) (x.rounds as)
  | asking {as token} :
      .acquired ∉ as → now.nanos = x.due as.length → x.Before now.nanos →
      Stage x now (x.asking now token (as.length + 1))
        (x.rounds as ++ [(now.nanos, .asks x.request)])
  | resting {as token last} :
      .acquired ∉ as → x.due as.length = last.nanos + x.backoff.nanos → x.Before last.nanos →
      last ≤ now → now.nanos ≤ x.due as.length → x.InTime now →
      Stage x now (.resting (x.bid token) x.deadline? as.length (last.after? x.backoff))
        (x.rounds as)

/-- The turn of a seeker that has done `l` before it and `l'` after it: it waits no longer
than its stage may last, goes on to another stage, or comes to its end. -/
def Fares (x : Seeker) (now : Instant) (w : World) (p : Process) (l l' : List (Nat × Act)) :
    Turn World Process Result → Prop
  | .waits due? => ∀ t, now ≤ t → (∀ due, due? = some due → t ≤ due) → x.Stage t p l
  | .moves w' q _ => x.Serves w' ∧ (q.IsCancelled w' ↔ p.IsCancelled w) ∧ x.Stage now q l'
  | .ends .. => ¬ p.IsCancelled w → x.Fate l'

variable {x : Seeker} {now t : Instant} {w w' : World} {p q : Process} {l : List (Nat × Act)}
  {as : List Answer} {j n : Nat} {turns : Behaviour World Process Result}
  {reply? : Instant → World → Call → Option Answer}

theorem rounds_concat (x : Seeker) (as : List Answer) (a : Answer) :
    x.rounds (as ++ [a]) =
      x.rounds as ++ [(x.due as.length, .asks x.request), (x.due as.length, .hears a)] := by
  simp [rounds, List.zipIdx_append]

theorem due_mono (h : j ≤ n) : x.due j ≤ x.due n :=
  Nat.add_le_add_left (Nat.mul_le_mul_right _ h) _

theorem due_succ (x : Seeker) (n : Nat) : x.due (n + 1) = x.due n + x.backoff.nanos := by
  rw [due, due, Nat.succ_mul, Nat.add_assoc]

theorem nanos_of_deadline? {d : Instant} (h : x.deadline? = some d) :
    0 < x.timeout.nanos ∧ d.nanos = x.start.nanos + x.timeout.nanos := by
  unfold deadline? at h
  split at h
  next => cases h
  next hzero =>
    refine ⟨Nat.pos_of_ne_zero fun h0 => hzero ?_, Instant.nanos_of_after?_eq_some h⟩
    exact beq_iff_eq.mpr h0

theorem Before.inTime (h : x.Before now.nanos) : x.InTime now :=
  fun d hd => Nat.le_of_lt (h d hd)

/-- The attempts before the rest that is under way came at their times. -/
theorem due_le_last {last : Instant} (hlast : x.due n = last.nanos + x.backoff.nanos) (h : j < n) :
    x.due j ≤ last.nanos := by
  have hle : x.due (j + 1) ≤ x.due n := due_mono h
  rw [due_succ] at hle
  omega

/-- A deadline in a rest comes after as many attempts as fit. -/
theorem timedOut_of_rest {last d : Instant} (hbackoff : 0 < x.backoff.nanos)
    (hfailed : .acquired ∉ as) (hlast : x.due as.length = last.nanos + x.backoff.nanos)
    (hbefore : x.Before last.nanos) (hd : x.deadline? = some d)
    (hle : d.nanos ≤ x.due as.length) :
    x.Fate (x.rounds as ++ [(d.nanos, .ends (.failed (.timedOut x.key)))]) := by
  have hnanos := (nanos_of_deadline? hd).2
  have hcount : ∀ j, j < as.length ↔ j * x.backoff.nanos < x.timeout.nanos := by
    intro j
    constructor
    · intro hj
      have hdue : x.due j < d.nanos := Nat.lt_of_le_of_lt (due_le_last hlast hj) (hbefore d hd)
      rw [due] at hdue
      omega
    · intro hj
      refine Nat.lt_of_not_le fun hge => ?_
      have hdue : x.due as.length ≤ x.due j := due_mono hge
      rw [due.eq_def x j] at hdue
      omega
  refine .timedOut hfailed hd ?_ hcount
  refine (eq_of_forall_ge_iff fun n => ?_).symm
  rw [ceilDiv_le_iff_le_smul hbackoff, smul_eq_mul, Nat.mul_comm, ← Nat.not_lt, ← hcount n,
    Nat.not_lt]

/-! ## The turns of a seeker -/

/-- The store of the world answers at once if setting a key takes no time. -/
theorem answersAtOnce_turn (x : Seeker) : x.AnswersAtOnce turn World.reply? where
  unasked _ := rfl
  asked {now w} token n _ := by
    obtain ⟨a, s, hlatency, hends⟩ : ∃ a s, s.latency = w.service.latency ∧
        Service.callTurn now w.service (x.call now) = .ends s a [] [] := by
      obtain ⟨a, store, -, hends⟩ := Service.callTurn_arrives (s := w.service)
        (c := x.call now) rfl (Nat.le_refl _) nofun
      exact ⟨a, _, by rfl, hends⟩
    refine ⟨a, s, s.traceOf x.request a, hlatency, ?_, ?_⟩
    · simp only [World.reply?, hends]
    · rw [asking, turn_call rfl, hends]
      rfl

/-- The turns before a store that answers every call at once, as `reply` says. -/
def answeredBy (reply : Instant → World → Call → Answer) : Behaviour World Process Result :=
  fun now w p =>
    match p.call? with
    | none => turn now w p
    | some c => p.continued w now (reply now w c)

/-- A store may answer anything at any time. -/
theorem answersAtOnce_answeredBy (x : Seeker) (reply : Instant → World → Call → Answer) :
    x.AnswersAtOnce (answeredBy reply) fun now w c => some (reply now w c) where
  unasked hcall := by simp only [answeredBy, hcall]
  asked {now w} token n _ := by
    refine ⟨reply now w (x.call now), w.service, [], rfl, rfl, ?_⟩
    cases h : reply now w (x.call now) <;> simp only [answeredBy, asking, Process.call?, h] <;> rfl

theorem turn_action (hlease : IsLease x.lease) : turn now w (.action x.action) =
    .moves (w.token x.cancel).2 (.attempting (x.bid (w.token x.cancel).1)
      (if x.timeout.isZero then none else now.after? x.timeout) 0) [] := by
  have hwritten : wholeSeconds? x.lease = some x.ttl := if_pos hlease
  simp only [turn, begin, action, acquire, hwritten]
  rfl

theorem turn_attempting_gaveUp {bid : Bid} {deadline? : Option Instant}
    (h : w.tokens.isCancelled bid.token = true) :
    turn now w (.attempting bid deadline? n) = gaveUp w bid n := if_pos h

theorem turn_resting_gaveUp {bid : Bid} {deadline? due? : Option Instant}
    (h : w.tokens.isCancelled bid.token = true ∨ isDue now deadline? = true) :
    turn now w (.resting bid deadline? n due?) = gaveUp w bid n := if_pos h

/-- What becomes of a seeker that is cancelled is not told here. -/
theorem fares_gaveUp {bid : Bid} {l' : List (Nat × Act)} (h : p.IsCancelled w) :
    x.Fares now w p l l' (gaveUp w bid n) := fun hspared => absurd h hspared

/-- A seeker that begins is about to make its first attempt. -/
theorem fares_beginning (hstore : x.AnswersAtOnce turns reply?) (hserves : x.Serves w)
    (hlease : IsLease x.lease) (hnow : now = x.start) (hp : p = .action x.action) :
    x.Fares now w p (x.rounds []) (x.rounds [] ++ p.acts turns reply? now w) (turns now w p) := by
  have hturn : turns now w p = .moves (w.token x.cancel).2
      (.attempting (x.bid (w.token x.cancel).1) x.deadline? 0) [] := by
    rw [hstore.unasked (by rw [hp]; rfl), hp, turn_action hlease, hnow]
    rfl
  have hacts : p.acts turns reply? now w = [] := by
    rw [Process.acts, hturn, hp]
    rfl
  have hquiet := w.quiet_token x.cancel
  have hnone : Answer.acquired ∉ ([] : List Answer) := List.not_mem_nil
  have hfirst : now.nanos = x.due 0 := by rw [hnow, due, Nat.zero_mul, Nat.add_zero]
  have hbefore : x.Before now.nanos := by
    intro d hd
    obtain ⟨hpos, hd⟩ := nanos_of_deadline? hd
    rw [hnow, hd]
    exact Nat.lt_add_of_pos_right hpos
  rw [hturn, Fares, hacts, List.append_nil]
  refine ⟨⟨?_, ?_⟩, ?_, .attempting hnone hfirst hbefore⟩
  · rw [hquiet.service]
    exact hserves.latency
  · rw [hquiet.manager]
    exact hserves.backoff
  · rw [hp]
    exact w.isCancelled_token x.cancel

/-- A seeker makes its attempt at once. -/
theorem fares_attempting {token : Nat} (hstore : x.AnswersAtOnce turns reply?)
    (hserves : x.Serves w) (hfailed : .acquired ∉ as) (hnow : now.nanos = x.due as.length)
    (hbefore : x.Before now.nanos)
    (hp : p = .attempting (x.bid token) x.deadline? as.length) :
    x.Fares now w p (x.rounds as) (x.rounds as ++ p.acts turns reply? now w) (turns now w p) := by
  have hown : turns now w p = turn now w p := hstore.unasked (by rw [hp]; rfl)
  by_cases hcancelled : w.tokens.isCancelled token = true
  · have hends : turns now w p = gaveUp w (x.bid token) as.length := by
      rw [hown, hp, turn_attempting_gaveUp hcancelled]
    rw [hends]
    exact fares_gaveUp (by rw [hp]; exact hcancelled)
  have hmoves : turns now w p = .moves w (x.asking now token (as.length + 1)) [] := by
    rw [hown, hp]
    simp only [turn, bid, hcancelled, Bool.false_eq_true, if_false]
    rw [Service.errand_set, Service.call, Request.kind, hserves.latency, Instant.after?_zero]
    rfl
  have hacts : p.acts turns reply? now w = [(now.nanos, .asks x.request)] := by
    rw [Process.acts, hmoves, hp]
    rfl
  rw [hmoves, Fares, hacts, hp]
  exact ⟨hserves, Iff.rfl, .asking hfailed hnow hbefore⟩

/-- After an attempt a seeker has won or rests. -/
theorem fares_asking {token : Nat} (hstore : x.AnswersAtOnce turns reply?) (hserves : x.Serves w)
    (hfailed : .acquired ∉ as) (hnow : now.nanos = x.due as.length) (hbefore : x.Before now.nanos)
    (hp : p = x.asking now token (as.length + 1)) :
    x.Fares now w p (x.rounds as ++ [(now.nanos, .asks x.request)])
      (x.rounds as ++ [(now.nanos, .asks x.request)] ++ p.acts turns reply? now w)
      (turns now w p) := by
  obtain ⟨a, s, more, hlatency, hreply, hturn⟩ := hstore.asked token (as.length + 1) hserves
  have hcall : p.call? = some (x.call now) := by
    rw [hp]
    rfl
  have hrounds : x.rounds as ++ [(now.nanos, .asks x.request)] ++ [(now.nanos, .hears a)] =
      x.rounds (as ++ [a]) := by
    rw [rounds_concat, hnow, List.append_assoc]
    rfl
  rw [← hp] at hturn
  by_cases ha : a = .acquired
  · subst ha
    obtain ⟨w', started, records, hends⟩ : ∃ w' started records,
        turns now w p = .ends w' (.lease (x.leaseAt now)) started records := ⟨_, _, _, hturn⟩
    have hacts : p.acts turns reply? now w =
        [(now.nanos, .hears .acquired)] ++ [(now.nanos, .ends (.lease (x.leaseAt now)))] := by
      rw [Process.acts, hcall, Option.bind_some, hreply, hends]
      rfl
    rw [hends, Fares, hacts]
    intro _
    rw [← List.append_assoc, hrounds]
    exact .won hfailed hnow hbefore
  · obtain ⟨records, hmoves⟩ : ∃ records, turns now w p =
        .moves (w.withService s) (.resting (x.bid token) x.deadline? (as.length + 1)
          (now.after? x.backoff)) records := by
      rw [hturn, ← hserves.backoff]
      cases a with
      | acquired => exact absurd rfl ha
      | occupied | value | done | removed | failed => exact ⟨_, rfl⟩
    have hacts : p.acts turns reply? now w = [(now.nanos, .hears a)] := by
      rw [Process.acts, hcall, Option.bind_some, hreply, hmoves, Act.ofTurn, hcall]
      rfl
    have hlength : (as ++ [a]).length = as.length + 1 := List.length_append
    have hdue : x.due (as ++ [a]).length = now.nanos + x.backoff.nanos := by
      rw [hlength, due_succ, hnow]
    rw [hmoves, Fares, hacts, hrounds]
    refine ⟨⟨?_, hserves.backoff⟩, by rw [hp]; rfl, ?_⟩
    · rw [World.withService, hlatency]
      exact hserves.latency
    · rw [← hlength]
      refine .resting ?_ hdue hbefore (Nat.le_refl _) ?_ hbefore.inTime
      · rw [List.mem_append, List.mem_singleton, not_or]
        exact ⟨hfailed, Ne.symm ha⟩
      · rw [hdue]
        exact Nat.le_add_right _ _

/-- A seeker waits for its next attempt or the deadline, whichever comes first. -/
theorem fares_resting {token : Nat} {last : Instant} (hstore : x.AnswersAtOnce turns reply?)
    (hserves : x.Serves w) (hbackoff : 0 < x.backoff.nanos) (hfailed : .acquired ∉ as)
    (hlast : x.due as.length = last.nanos + x.backoff.nanos) (hbefore : x.Before last.nanos)
    (hle : last ≤ now) (hdue : now.nanos ≤ x.due as.length) (htime : x.InTime now)
    (hp : p = .resting (x.bid token) x.deadline? as.length (last.after? x.backoff)) :
    x.Fares now w p (x.rounds as) (x.rounds as ++ p.acts turns reply? now w) (turns now w p) := by
  have hown : turns now w p = turn now w p := hstore.unasked (by rw [hp]; rfl)
  by_cases hcancelled : w.tokens.isCancelled token = true
  · have hends : turns now w p = gaveUp w (x.bid token) as.length := by
      rw [hown, hp, turn_resting_gaveUp (.inl hcancelled)]
    rw [hends]
    exact fares_gaveUp (by rw [hp]; exact hcancelled)
  by_cases hover : isDue now x.deadline? = true
  · have hends : turns now w p = gaveUp w (x.bid token) as.length := by
      rw [hown, hp, turn_resting_gaveUp (.inr hover)]
    have hacts : p.acts turns reply? now w = [(now.nanos, .ends (.failed (.timedOut x.key)))] := by
      rw [Process.acts, hends, hp]
      rfl
    rw [hends, gaveUp, Fares, hacts]
    intro _
    cases hd : x.deadline? with
    | none => rw [hd] at hover; cases hover
    | some d =>
      rw [hd] at hover
      obtain rfl : now = d := Instant.ext (Nat.le_antisymm (htime d hd) (of_decide_eq_true hover))
      exact timedOut_of_rest hbackoff hfailed hlast hbefore hd hdue
  have hwatches : ¬ (w.tokens.isCancelled token = true ∨ isDue now x.deadline? = true) :=
    not_or.mpr ⟨hcancelled, hover⟩
  by_cases hnext : isDue now (last.after? x.backoff) = true
  · have hmoves : turns now w p =
        .moves w (.attempting (x.bid token) x.deadline? as.length) [] := by
      rw [hown, hp]
      exact (if_neg hwatches).trans (if_pos hnext)
    have hacts : p.acts turns reply? now w = [] := by
      rw [Process.acts, hmoves, hp]
      rfl
    rw [hmoves, Fares, hacts, List.append_nil]
    have hnow : now.nanos = x.due as.length := by
      have := Instant.isDue_after?_iff.mp hnext
      omega
    refine ⟨hserves, by rw [hp]; rfl, .attempting hfailed hnow fun d hd => ?_⟩
    rw [hd] at hover
    exact lt_of_not_isDue hover
  · have hwaits : turns now w p = .waits (earliest x.deadline? (last.after? x.backoff)) := by
      rw [hown, hp]
      exact (if_neg hwatches).trans (if_neg hnext)
    rw [hwaits]
    intro t ht hfirst
    rw [hp]
    refine .resting hfailed hlast hbefore (Nat.le_trans hle ht) ?_
      (Contender.le_of_earliest hfirst)
    rw [hlast]
    exact Instant.nanos_le_of_after? (Contender.le_of_earliest_right hfirst)

theorem Stage.fares (h : x.Stage now p l) (hstore : x.AnswersAtOnce turns reply?)
    (hserves : x.Serves w) (hlease : IsLease x.lease) (hbackoff : 0 < x.backoff.nanos) :
    x.Fares now w p l (l ++ p.acts turns reply? now w) (turns now w p) := by
  cases h with
  | beginning hnow => exact fares_beginning hstore hserves hlease hnow rfl
  | attempting hfailed hnow hbefore =>
    exact fares_attempting hstore hserves hfailed hnow hbefore rfl
  | asking hfailed hnow hbefore => exact fares_asking hstore hserves hfailed hnow hbefore rfl
  | resting hfailed hlast hbefore hle hdue htime =>
    exact fares_resting hstore hserves hbackoff hfailed hlast hbefore hle hdue htime rfl

/-! ## What a stage tells -/

theorem Stage.inTime (h : x.Stage now p l) : x.InTime now := by
  cases h with
  | beginning hnow =>
    intro d hd
    obtain ⟨-, hd⟩ := nanos_of_deadline? hd
    show now.nanos ≤ d.nanos
    rw [hnow, hd]
    exact Nat.le_add_right _ _
  | attempting _ _ hbefore | asking _ _ hbefore => exact hbefore.inTime
  | resting _ _ _ _ _ htime => exact htime

/-- The attempts that are over were made before the one that is due. -/
theorem before_of_lt (hnow : now.nanos = x.due n) (hbefore : x.Before now.nanos) (hj : j < n) :
    x.due j ≤ now.nanos ∧ x.Before (x.due j) := by
  have hle : x.due j ≤ now.nanos := hnow ▸ due_mono (Nat.le_of_lt hj)
  exact ⟨hle, fun d hd => Nat.lt_of_le_of_lt hle (hbefore d hd)⟩

theorem Stage.underway (h : x.Stage now p l) : x.Underway now l := by
  have htime := h.inTime
  cases h with
  | beginning hnow =>
    refine ⟨[], nofun, ?_, htime, nofun, .inl rfl⟩
    rw [hnow]
    exact Nat.le_add_right _ _
  | attempting hfailed hnow hbefore =>
    exact ⟨_, hfailed, Nat.le_of_eq hnow, htime, fun j hj => before_of_lt hnow hbefore hj, .inl rfl⟩
  | asking hfailed hnow hbefore =>
    exact ⟨_, hfailed, Nat.le_of_eq hnow, htime, fun j hj => before_of_lt hnow hbefore hj,
      .inr ⟨hnow, hbefore, rfl⟩⟩
  | resting hfailed hlast hbefore hle hdue =>
    refine ⟨_, hfailed, hdue, htime, fun j hj => ?_, .inl rfl⟩
    have hj := due_le_last hlast hj
    exact ⟨Nat.le_trans hj hle, fun d hd => Nat.lt_of_le_of_lt hj (hbefore d hd)⟩

/-- A seeker has no more turns at an instant than its effort. -/
theorem Stage.lowers (h : x.Stage now p l) (hstore : x.AnswersAtOnce turns reply?)
    (hserves : x.Serves w) (hbackoff : 0 < x.backoff.nanos) :
    Lowers now (p.effort now) (Process.effort now) (turns now w p) := by
  have hown : p.call? = none →
      Lowers now (p.effort now) (Process.effort now) (turns now w p) := by
    intro hcall
    rw [hstore.unasked hcall]
    refine turn_lowers p fun bid deadline? attempts e hp => ?_
    cases h with
    | beginning | attempting | resting => cases hp
    | asking => cases hcall
  cases h with
  | beginning | attempting | resting => exact hown rfl
  | @asking as token =>
    obtain ⟨a, s, more, -, -, hturn⟩ := hstore.asked token (as.length + 1) hserves
    have hrest : ∀ n, (rest (w.withService s) now (x.bid token) x.deadline? n).effort now < 3 := by
      intro n
      have hpos : 0 < ((w.withService s).manager (x.bid token).manager).config.backoff.nanos :=
        hserves.backoff ▸ hbackoff
      rw [effort_rest hpos]
      decide
    rw [hturn]
    cases a with
    | acquired => exact Nat.succ_pos _
    | occupied | value | done | removed | failed => exact hrest _

/-- No seeker waits at its deadline. -/
theorem Stage.not_waits {due? : Option Instant} (h : x.Stage now p l)
    (hstore : x.AnswersAtOnce turns reply?) (hd : x.deadline? = some now) :
    turns now w p ≠ .waits due? := by
  have hnever : ¬ x.Before now.nanos := fun hbefore => Nat.lt_irrefl _ (hbefore now hd)
  cases h with
  | beginning hnow =>
    obtain ⟨hpos, hd⟩ := nanos_of_deadline? hd
    rw [hnow] at hd
    omega
  | attempting _ _ hbefore | asking _ _ hbefore => exact absurd hbefore hnever
  | @resting as token last =>
    have hdue : isDue now x.deadline? = true := by
      rw [hd]
      exact decide_eq_true (Nat.le_refl _)
    rw [hstore.unasked rfl, turn_resting_gaveUp (.inr hdue)]
    nofun

end Seeker

end Lock

end Leasehold
