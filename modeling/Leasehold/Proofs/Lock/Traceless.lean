import Leasehold.Proofs.Lock.Likeness

/-!
# Acquisitions that fail leave no trace

A call that acquires a lock, with or without a timeout, sends one and the same
request to the store, as often as it attempts.  Unless it wins, nothing else comes of
it: if it is left out of a run, then the rest is a run, all other calls have the same
results at the same instants, and in the end the store has the same live entries, the
registries are the same, and the store was called for the same refreshes
(`failed_acquisition_traceless`).

Only the record of requests, and the calls that were answered, tell of its attempts.

A call looks up its cancellation token when it begins, and a name that is used first
gets a token then.  Who leaves the call out may have made its token all the same; if
the token was there before, this comes to nothing (`TokenHistory.history`).
-/

namespace Leasehold.Lock

open Simulation

/-! ## Attempts that fail -/

/-- What somebody wants who acquires a lock: again and again until a timeout, or
with a single attempt. -/
structure Acquisition where
  /-- The lock manager that is asked. -/
  manager : Nat
  /-- The key. -/
  key : String
  /-- The token of the one who asks. -/
  owner : String
  /-- The lease that is asked for. -/
  lease : Duration
  /-- How long to try, unless there is to be a single attempt. -/
  timeout? : Option Duration
  /-- The name of the token that cancels the acquisition. -/
  cancel : String

namespace Acquisition

/-- The call. -/
def action (a : Acquisition) : Action :=
  match a.timeout? with
  | some timeout => .acquire a.manager a.key a.owner a.lease timeout a.cancel
  | none => .tryAcquire a.manager a.key a.owner a.lease a.cancel

/-- The request that every attempt sends. -/
def request (a : Acquisition) : Request :=
  .set a.key a.owner (Duration.ofSeconds (leaseSeconds a.lease))

/-- The call before it begins, at once or at some instant. -/
inductive Begins (a : Acquisition) : Process → Prop where
  | now : Begins a (.action a.action)
  | later {due?} : Begins a (.later due? a.action)

/-- How far the call has come once it has begun. -/
inductive Stage (a : Acquisition) : Process → Prop where
  | attempting {bid deadline? attempts} :
      Request.set bid.key bid.owner bid.ttl = a.request →
      Stage a (.attempting bid deadline? attempts)
  | asking {bid deadline? attempts call due?} :
      Request.set bid.key bid.owner bid.ttl = a.request → call.request = a.request →
      call.stage = .approaching due? → Stage a (.asking bid deadline? attempts (.single call))
  | resting {bid deadline? attempts due?} :
      Request.set bid.key bid.owner bid.ttl = a.request →
      Stage a (.resting bid deadline? attempts due?)
  | trying {bid call due?} :
      call.request = a.request → call.stage = .approaching due? →
      Stage a (.trying bid (.single call))

variable {a : Acquisition} {now : Instant} {w w' : World} {p : Process}

/-- What the call may do if it is to be left out. -/
def Omissible (a : Acquisition) (now : Instant) (w' : World) : Turn World Process Result → Prop :=
  Turn.Omissible (World.Alike a.request a.cancel now) a.Stage (·.lease? ≠ none) w'

/-- A call begins with its lease refused, or looks up the token of its name. -/
theorem begin_cases (a : Acquisition) (now : Instant) (w : World) :
    (∃ e, begin now w a.action = .ends w (.failed e) [] []) ∨
      ∃ p, begin now w a.action = .moves (w.token a.cancel).2 p [] ∧ a.Stage p := by
  have hrequest : ∀ ttl, wholeSeconds? a.lease = some ttl → .set a.key a.owner ttl = a.request := by
    intro ttl hwritten
    obtain ⟨-, hwritten⟩ := Option.ite_none_right_eq_some.mp hwritten
    cases hwritten
    rfl
  simp only [action]
  split
  next timeout =>
    simp only [begin, acquire]
    split
    next => exact .inl ⟨_, rfl⟩
    next ttl hwritten => exact .inr ⟨_, rfl, .attempting (hrequest ttl hwritten)⟩
  next =>
    simp only [begin, tryAcquire, Service.errand_set]
    split
    next => exact .inl ⟨_, rfl⟩
    next ttl hwritten => exact .inr ⟨_, rfl, .trying (hrequest ttl hwritten) rfl⟩

theorem omissible_attempted {bid : Bid} {deadline? : Option Instant} {attempts : Nat}
    {answer : Answer} (hbid : Request.set bid.key bid.owner bid.ttl = a.request)
    (hw : answer ≠ .acquired → w.Alike a.request a.cancel now w') :
    a.Omissible now w' (attempted w now bid deadline? attempts answer) := by
  cases answer with
  | acquired => exact .inl nofun
  | occupied | value | done | removed | failed => exact ⟨hw nofun, .resting hbid⟩

theorem omissible_tried {bid : Bid} {answer : Answer}
    (hw : answer ≠ .acquired → w.Alike a.request a.cancel now w') :
    a.Omissible now w' (tried w now bid answer) := by
  cases answer with
  | acquired => exact .inl nofun
  | occupied | value | done | removed | failed => exact .inr ⟨hw nofun, rfl⟩

theorem Omissible.after {t : Turn World Process Result} (h : a.Omissible now w' t)
    (records : List Log.Record) : a.Omissible now w' (t.after records) := by
  cases t with
  | waits | moves | ends => exact h

/-- A process that attempts waits, or goes on with an answer that makes no difference
unless it is a win. -/
theorem omissible_call {c : Call} {due? : Option Instant} (hcall : p.call? = some c)
    (hrequest : c.request = a.request) (hstage : c.stage = .approaching due?)
    (hw : w.Alike a.request a.cancel now w')
    (hanswer : ∀ s answer,
      (answer ≠ .acquired → (w.withService s).Alike a.request a.cancel now w') →
      a.Omissible now w' (p.continued (w.withService s) now answer)) :
    a.Omissible now w' (turn now w p) := by
  rw [turn_call hcall]
  rcases w.service.attempt_cases now hrequest hstage with hwaits | ⟨s, answer, hends, halike⟩
  · rw [hwaits]
    trivial
  · rw [hends]
    exact (hanswer s answer fun h => hw.of_service (halike h)).after _

theorem Stage.omissible (h : a.Stage p) (hw : w.Alike a.request a.cancel now w') :
    a.Omissible now w' (turn now w p) := by
  cases h with
  | attempting hbid =>
    simp only [turn]
    split
    · exact .inr ⟨hw, rfl⟩
    · rw [Service.errand_set]
      exact ⟨hw, .asking hbid hbid rfl⟩
  | asking hbid hrequest hstage =>
    exact omissible_call rfl hrequest hstage hw fun _ _ hw => omissible_attempted hbid hw
  | resting hbid =>
    simp only [turn]
    split
    · exact .inr ⟨hw, rfl⟩
    split
    · exact ⟨hw, .attempting hbid⟩
    · trivial
  | trying hrequest hstage =>
    exact omissible_call rfl hrequest hstage hw fun _ _ hw => omissible_tried hw

/-- A call that does not win goes unnoticed once it has begun. -/
theorem unnoticed (a : Acquisition) :
    Unnoticed turn (World.Alike a.request a.cancel) a.Stage (Result.seen a.request)
      (·.lease? ≠ none) where
  alike p h := h.turn nofun p
  later hle h := h.later hle
  own h hw := h.omissible hw

end Acquisition

/-! ## Runs without them -/

/-- The system when the token of a name has been made, if it was not there. -/
def withToken (s : Locks) (name : String) : Locks := { s with world := (s.world.token name).2 }

/-- A history in which the token of a name may be made at some moment: whoever passes
a token to a call has made it before. -/
inductive TokenHistory (rule : Rule World Process) (name : String) (s : Locks) :
    List (Choice Process) → List (Ending Result) → Locks → Prop where
  | plain {cs es t} : History turn rule s cs es t → TokenHistory rule name s cs es t
  | made {cs cs' es es' u t} :
      History turn rule s cs es u → History turn rule (withToken u name) cs' es' t →
      TokenHistory rule name s (cs ++ cs') (es ++ es') t

section

variable {rule : Rule World Process} {name : String} {x : Request} {s s' t : Locks}
  {c : Choice Process} {cs : List (Choice Process)} {es : List (Ending Result)}

theorem TokenHistory.cons (hstep : Step turn s c s') (hrule : rule s c s')
    (h : TokenHistory rule name s' cs es t) :
    TokenHistory rule name s (c :: cs) ((s.ending? turn c).toList ++ es) t := by
  cases h with
  | plain h => exact .plain (.cons hstep hrule h)
  | made h h' =>
    rw [← List.append_assoc]
    exact .made (.cons hstep hrule h) h'

theorem contains_step (h : s.world.names.contains name = true) (hstep : Step turn s c s') :
    s'.world.names.contains name = true := by
  have halike := fun p => (World.Alike.refl (.get name) h s.now).turn nofun p
  cases hstep with
  | @moves _ p _ _ _ _ hturn =>
    have hsame := halike p
    rw [hturn] at hsame
    cases hsame with
    | moves hw => exact hw.contains
  | @ends _ p _ _ _ _ _ hturn =>
    have hsame := halike p
    rw [hturn] at hsame
    cases hsame with
    | ends hw => exact hw.contains
  | start | pass => exact h

/-- If the token was there before, then nothing else happens in the history. -/
theorem TokenHistory.history (h : TokenHistory rule name s cs es t)
    (hname : s.world.names.contains name = true) : History turn rule s cs es t := by
  cases h with
  | plain h => exact h
  | @made _ _ _ _ u _ h h' =>
    have hu : u.world.names.contains name = true :=
      h.run.preserves (fun h hstep _ => contains_step h hstep) hname
    refine h.append ?_
    rwa [withToken, World.token_of_contains hu] at h'

/-- Two systems that users cannot tell apart, now or later, but for requests `x`. -/
structure Untraced (x : Request) (s s' : Locks) : Prop where
  now : s'.now = s.now
  value? : ∀ t, s.now ≤ t → ∀ k, s'.world.service.value? t k = s.world.service.value? t k
  ttl? : ∀ t, s.now ≤ t → ∀ k, s'.world.service.ttl? t k = s.world.service.ttl? t k
  size : ∀ t, s.now ≤ t → s'.world.service.size t = s.world.service.size t
  renewing : ∀ i k, (s'.world.manager i).renewing k = (s.world.manager i).renewing k
  requests : s'.world.service.store.requests.filter (· ≠ x) =
    s.world.service.store.requests.filter (· ≠ x)
  answered : s'.world.service.journal.filter (·.request ≠ x) =
    s.world.service.journal.filter (·.request ≠ x)

/-- Two worlds in which users find the same, but for requests `x`. -/
structure World.Resembles (x : Request) (now : Instant) (w w' : World) : Prop where
  service : w.service.Alike x now w'.service
  managers : w'.managers = w.managers

theorem World.Resembles.untraced (h : s.world.Resembles x s.now s'.world)
    (hnow : s'.now = s.now) : Untraced x s s' where
  now := hnow
  value? t ht k := ((h.service.later ht).value? k).symm
  ttl? t ht k := ((h.service.later ht).ttl? k).symm
  size t ht := (h.service.later ht).size.symm
  renewing i k := by rw [World.manager, h.managers, World.manager]
  requests := h.service.requests.symm
  answered := h.service.answered.symm

end

namespace Acquisition

variable {a : Acquisition} {n : Nat} {s s' t : Locks} {schedule : Schedule}
  {cs : List (Choice Process)} {es : List (Ending Result)}

/-- On a turn before its beginning the call goes on waiting, is refused, or looks up
its token. -/
theorem step_begins (h : Omits (fun _ => Eq) a.Begins n s s') (hstep : Step turn s (.turn n) t) :
    Omits (fun _ => Eq) a.Begins n t s' ∨
      Omits (World.Alike a.request a.cancel) a.Stage n t (withToken s' a.cancel) := by
  cases hstep with
  | @moves _ p w next records hp hturn =>
    cases h.own p hp with
    | later =>
      simp only [turn] at hturn
      split at hturn
      · cases hturn
        refine .inl (h.advance_own h.world ?_)
        rintro _ ⟨⟩
        exact .now
      · cases hturn
    | now =>
      rcases a.begin_cases s.now s.world with ⟨e, hends⟩ | ⟨p, hmoves, hstage⟩
      · cases hends.symm.trans hturn
      · cases hmoves.symm.trans hturn
        have hw : (s.world.token a.cancel).2.Alike a.request a.cancel s.now
            (s'.world.token a.cancel).2 := by
          rw [← h.world]
          exact .refl _ (s.world.contains_token_self a.cancel) s.now
        refine .inr (h.advance_own hw ?_)
        rintro _ ⟨⟩
        exact hstage
  | @ends _ p w result started records hp hturn =>
    cases h.own p hp with
    | later =>
      simp only [turn] at hturn
      split at hturn <;> cases hturn
    | now =>
      rcases a.begin_cases s.now s.world with ⟨e, hends⟩ | ⟨p, hmoves, -⟩
      · cases hends.symm.trans hturn
        refine .inl (h.advance_own h.world ?_)
        rintro _ ⟨⟩
      · cases hmoves.symm.trans hturn

/-- Whatever becomes of the call, all others go on as they would without it. -/
theorem tokenHistory (h : Omits (fun _ => Eq) a.Begins n s s')
    (hrun : History turn (schedule.rule turn) s cs es t)
    (hfailed : ∀ e ∈ es, e.number = n → e.result.lease? = none) :
    ∃ es' t', TokenHistory (schedule.rule turn) a.cancel s' (cs.filterMap (·.without n)) es' t' ∧
      es'.map (·.seen (Result.seen a.request)) =
        (es.filter (·.number ≠ n)).map (·.without n (Result.seen a.request)) ∧
      Omits (World.Resembles a.request) (fun _ => True) n t t' := by
  induction hrun generalizing s' with
  | nil =>
    refine ⟨[], s', .plain .nil, rfl, h.imp ?_ fun _ _ => trivial⟩
    rintro now w _ rfl
    exact ⟨.refl _ now w.service, rfl⟩
  | @cons s c t cs es u hstep hrule hrest ih =>
    have hfailed' : ∀ e ∈ es, e.number = n → e.result.lease? = none := fun e he =>
      hfailed e (List.mem_append_right _ he)
    cases hc : c.without n with
    | none =>
      obtain rfl := Omits.of_without_eq_none hc
      rw [List.filterMap_cons_none hc, Omits.filter_ending_own]
      rcases step_begins h hstep with h | h
      · exact ih h hfailed'
      · obtain ⟨es', u', hrun', hu, hes⟩ := h.history a.unnoticed hrest fun e he hnumber =>
          not_not_intro (hfailed' e he hnumber)
        exact ⟨es', u', .made .nil hrun', hes,
          hu.imp (fun hw => ⟨hw.service, hw.managers⟩) fun _ _ => trivial⟩
    | some c' =>
      obtain ⟨t', hstep', hrule', ht, hending⟩ :=
        h.step_other (indistinct_eq turn (Result.seen a.request)) hrule hstep hc
      obtain ⟨es', u', hrun', hes, hu⟩ := ih ht hfailed'
      rw [List.filterMap_cons_some hc]
      refine ⟨_, u', .cons hstep' hrule' hrun', ?_, hu⟩
      rw [List.map_append, hending, hes, Omits.filter_ending_other hc, List.map_append]

end Acquisition

/-- A call that acquires a lock, and has not won, can be left out of a run.  Its
cancellation token may be made all the same.  Nobody can tell the difference, but for
the requests of the call: all others end with the same results at the same instants,
and the store and the registries look the same from then on. -/
theorem failed_acquisition_traceless {a : Acquisition} {p : Process} {schedule : Schedule}
    {s t : Locks} {cs : List (Choice Process)} {es : List (Ending Result)} (hp : a.Begins p)
    (hrun : History turn (schedule.rule turn) (s.add p) cs es t)
    (hfailed : ∀ e ∈ es, e.number = s.processes.length → e.result.lease? = none) :
    ∃ es' t', TokenHistory (schedule.rule turn) a.cancel s
        (cs.filterMap (·.without s.processes.length)) es' t' ∧
      es'.map (·.seen (Result.seen a.request)) =
        (es.filter (·.number ≠ s.processes.length)).map
          (·.without s.processes.length (Result.seen a.request)) ∧
      t'.processes = t.processes.eraseIdx s.processes.length ∧ Untraced a.request t t' := by
  have hadd : Omits (fun _ => Eq) a.Begins s.processes.length (s.add p) s := .of_add hp rfl
  obtain ⟨es', t', hrun', hes, ht⟩ := Acquisition.tokenHistory hadd hrun hfailed
  exact ⟨es', t', hrun', hes, ht.processes, ht.world.untraced ht.now⟩

/-- Somebody is about to make a single attempt at a key that is free. -/
def beforehand : Locks where
  now := .epoch
  world := {
    service := { store := .faulty {} }
    managers := [{ config := { backoff := .ofSeconds 3 } }] }
  processes := [some (.action (.tryAcquire 0 "k" "a" (.ofSeconds 10) "a"))]

/-- Somebody else tries to acquire the key for three seconds. -/
def loser : Acquisition := ⟨0, "k", "b", .ofSeconds 10, some (.ofSeconds 3), "b"⟩

/-- The key is won at once and then held, so the other call is told after three
seconds that its time is over. -/
theorem failed_acquisition_traceless_of_loser :
    ∃ cs es t l es' t',
      History turn (Schedule.prompt.rule turn) (beforehand.add (.action loser.action)) cs es t ∧
      es = [⟨0, .lease l, .epoch⟩, ⟨1, .failed (.timedOut "k"), { nanos := 3000000000 }⟩] ∧
      TokenHistory (Schedule.prompt.rule turn) "b" beforehand (cs.filterMap (·.without 1)) es' t' ∧
      es'.map (·.seen (Result.seen loser.request)) = [⟨0, .lease l, .epoch⟩] ∧
      Untraced loser.request t t' := by
  let cs : List (Choice Process) := [.turn 0, .turn 0, .turn 1, .turn 1, .turn 1, .turn 2,
    .pass { nanos := 3000000000 }, .turn 1]
  obtain ⟨t, ht⟩ : ∃ t, (beforehand.add (.action loser.action)).follow? turn
      (Schedule.prompt.rule turn) cs = some t := Option.isSome_iff_exists.mp (by decide +kernel)
  have hrun := History.of_follow? cs ht
  obtain ⟨es, l, hends, hes⟩ : ∃ es l,
      (beforehand.add (.action loser.action)).endings turn cs = es ∧
      es = [⟨0, .lease l, .epoch⟩, ⟨1, .failed (.timedOut "k"), { nanos := 3000000000 }⟩] :=
    ⟨_, _, rfl, rfl⟩
  rw [hends] at hrun
  have hfailed : ∀ e ∈ es, e.number = 1 → e.result.lease? = none := by
    intro e he hnumber
    rw [hes] at he
    rcases List.mem_pair.mp he with rfl | rfl
    · cases hnumber
    · rfl
  obtain ⟨es', t', hrun', hes', -, huntraced⟩ := failed_acquisition_traceless .now hrun hfailed
  rw [hes] at hes'
  exact ⟨cs, es, t, l, es', t', hrun, hes, hrun', hes', huntraced⟩

end Leasehold.Lock
