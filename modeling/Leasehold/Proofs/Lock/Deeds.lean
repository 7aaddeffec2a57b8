import Leasehold.Proofs.Lock.Arithmetic
import Leasehold.Proofs.Lock.Registry
import Leasehold.Proofs.Simulation.Run
import Leasehold.Proofs.Store.Calls

/-!
# What a process does on its turn

`Deed` lists everything that a process of the lock managers can do on a turn:
what becomes of the world and of the process, which processes it starts, and
which lease it acquires.  `turn_isDeed` says that the list is complete, for
processes that are `Fit`.  A process is fit if its errand asks for what the
process is about, and a renewal moreover if it does not refresh before the first
multiple of its interval.

All later invariants of runs are proved over the deeds; nothing else opens
`turn`.
-/

namespace Leasehold

/-- An action that does not ask the store to write. -/
def StoreAction.Fit : StoreAction → Prop
  | .request (.get _) => True
  | .request _ => False
  | _ => True

instance (a : StoreAction) : Decidable a.Fit := by
  unfold StoreAction.Fit
  split <;> infer_instance

namespace Lock

open Simulation

/-! ## Calls of processes -/

/-- The call that a process waits for. -/
def Process.call? : Process → Option Call
  | .asking _ _ _ (.single c) => some c
  | .trying _ (.single c) => some c
  | .releasing _ _ (.single c) => some c
  | .renewing _ (.refreshing _ _ (.single c)) => some c
  | .store (.errand (.single c)) => some c
  | _ => none

/-- The process when its call has gone on. -/
def Process.withCall (c : Call) : Process → Process
  | .asking bid deadline? attempts _ => .asking bid deadline? attempts (.single c)
  | .trying bid _ => .trying bid (.single c)
  | .releasing key owner _ => .releasing key owner (.single c)
  | .renewing r (.refreshing cycle next? _) => .renewing r (.refreshing cycle next? (.single c))
  | .store (.errand _) => .store (.errand (.single c))
  | p => p

/-- The answer that a process gets from the store when it has a turn, if it gets
one. -/
def Process.answer? (w : World) (now : Instant) (p : Process) : Option Answer :=
  match p.call? with
  | none => none
  | some c =>
      match Service.callTurn now w.service c with
      | .ends _ a _ _ => some a
      | .waits _ | .moves .. => none

/-- The bid of a process that waits for the answer to an attempt. -/
def Process.bid? : Process → Option Bid
  | .asking bid .. => some bid
  | .trying bid _ => some bid
  | _ => none

/-- The renewal that a process is. -/
def Process.renewal? : Process → Option Renewing
  | .renewing r _ => some r
  | _ => none

/-- A process that is neither a renewal nor a release under way. -/
def Process.IsPlain : Process → Prop
  | .renewing .. | .releasing .. => False
  | _ => True

/-- How a process whose call is over goes on, if it has not won a lock. -/
def Process.resumed (w : World) (now : Instant) : Process → Option Process
  | .asking bid deadline? attempts _ => some (rest w now bid deadline? attempts)
  | .renewing r (.refreshing cycle next? _) => some (.renewing r (.waiting (cycle + 1) next?))
  | _ => none

/-! ## Fit processes -/

/-- An action that leaves writing to the lock managers. -/
def Action.Fit (w : World) : Action → Prop
  | .acquire manager .. => manager < w.managers.length
  | .acquireDefault manager .. => manager < w.managers.length
  | .tryAcquire manager .. => manager < w.managers.length
  | .release manager .. => manager < w.managers.length
  | .store a => a.Fit
  | .cancel _ | .child .. | .config _ => True

/-- A bid at one of the lock managers, with an accepted lease. -/
structure Bid.Fit (w : World) (bid : Bid) : Prop where
  manager : bid.manager < w.managers.length
  lease : ∃ n, IsWritten bid.ttl (renewalInterval bid.ttl) n

/-- A renewal that one of the lock managers has started. -/
structure Renewing.Fit (w : World) (r : Renewing) : Prop where
  manager : r.manager < w.managers.length
  generation : r.generation < (w.manager r.manager).nextGeneration
  token : r.token < w.tokens.nodes.length
  lease : ∃ d n, IsWritten d r.interval n

/-- An errand that is one call, for the given request. -/
def AsksFor (e : Errand) (request : Request) : Prop :=
  ∃ c, e = .single c ∧ c.Sound ∧ c.request = request

/-- A renewal that has not come too early. -/
def RenewalStage.Fit (now : Instant) (r : Renewing) : RenewalStage → Prop
  | .starting => True
  | .waiting _ tick? => ∀ t, tick? = some t → r.acquiredAt.nanos + r.interval.nanos ≤ t.nanos
  | .refreshing _ next? e =>
      r.acquiredAt.nanos + r.interval.nanos ≤ now.nanos ∧
        (∀ t, next? = some t → r.acquiredAt.nanos + r.interval.nanos ≤ t.nanos) ∧
        AsksFor e (.refresh r.key r.interval)

/-- A process that does what it is for. -/
def Process.Fit (w : World) (now : Instant) : Process → Prop
  | .action a => a.Fit w
  | .later _ a => a.Fit w
  | .attempting bid _ _ => bid.Fit w
  | .asking bid _ _ e => bid.Fit w ∧ AsksFor e (.set bid.key bid.owner bid.ttl)
  | .resting bid _ _ _ => bid.Fit w
  | .trying bid e => bid.Fit w ∧ AsksFor e (.set bid.key bid.owner bid.ttl)
  | .releasing key owner e => AsksFor e (.deleteIfEquals key owner)
  | .renewing r stage => r.Fit w ∧ stage.Fit now r
  | .store (.action a) => a.Fit
  | .store (.errand e) => ∃ k, AsksFor e (.get k)
  | .store (.asleep _) => True

/-! ## Deeds -/

/-- What a process does on its turn: the world before it, the process, the world
after it, how the process goes on, what it starts, and the lease that it
acquires. -/
inductive Deed (now : Instant) (w : World) :
    Process → World → Option Process → List Process → Option Lease → Prop where
  /-- Something that is of no concern to other processes. -/
  | idle {p w' next?} :
      p.call? = none → p.IsPlain → w.Quiet w' →
      (∀ q, next? = some q → q.IsPlain ∧ q.Fit w' now) →
      Deed now w p w' next? [] none
  /-- The store is looked at, or its switches are turned. -/
  | acted {a} :
      Deed now w (.store (.action a)) (w.withService (w.service.act now a).1) none [] none
  /-- A call goes on. -/
  | underway {p c c' s records} :
      p.call? = some c → Service.callTurn now w.service c = .moves s c' records →
      Deed now w p (w.withService s) (some (p.withCall c')) [] none
  /-- A call ends, and no lock is won. -/
  | answered {p c s a started records} :
      p.call? = some c → Service.callTurn now w.service c = .ends s a started records →
      (p.bid? ≠ none → a ≠ .acquired) →
      Deed now w p (w.withService s) (p.resumed (w.withService s) now) [] none
  /-- An attempt ends, and the lock is won. -/
  | won {p bid c s started records l r w'} :
      p.call? = some c → Service.callTurn now w.service c = .ends s .acquired started records →
      p.bid? = some bid → Held (w.withService s) now bid l r w' →
      Deed now w p w' none [.renewing r .starting] (some l)
  /-- A release begins: the renewal stops. -/
  | released {manager key owner w'} :
      Stopped w manager key owner w' →
      Deed now w (.action (.release manager key owner)) w'
        (some (.releasing key owner (w.service.errand now (.deleteIfEquals key owner)))) [] none
  /-- A renewal begins to wait for its first tick. -/
  | begun {r first} :
      r.acquiredAt.after? r.interval = some first →
      Deed now w (.renewing r .starting) w (some (.renewing r (.waiting 1 (some first)))) [] none
  /-- A tick has come, and a refresh is asked for. -/
  | ticked {r cycle tick} :
      cycle ≤ r.budget → w.tokens.isCancelled r.token = false → tick ≤ now →
      Deed now w (.renewing r (.waiting cycle (some tick))) w
        (some (.renewing r (.refreshing cycle (nextTick? tick now r.interval)
          (w.service.errand now (.refresh r.key r.interval))))) [] none
  /-- A renewal ends before its first tick, which no clock can read. -/
  | unread {r w'} :
      r.acquiredAt.after? r.interval = none → Retired w r w' →
      Deed now w (.renewing r .starting) w' none [] none
  /-- A renewal ends, for its budget is spent or it was cancelled. -/
  | retired {r cycle tick? w'} :
      r.budget < cycle ∨ w.tokens.isCancelled r.token = true → Retired w r w' →
      Deed now w (.renewing r (.waiting cycle tick?)) w' none [] none

/-- The lease that a result tells of. -/
def Result.lease? : Result → Option Lease
  | .lease l => some l
  | _ => none

/-! ## Turns of processes with a call under way -/

/-- How a process goes on with the answer to its call. -/
def Process.continued (w : World) (now : Instant) (a : Answer) :
    Process → Turn World Process Result
  | .asking bid deadline? attempts _ => attempted w now bid deadline? attempts a
  | .trying bid _ => tried w now bid a
  | .releasing key owner _ => .ends w .ok [] [(releaseEvent key owner a).record]
  | .renewing r (.refreshing cycle next? _) =>
      .moves w (.renewing r (.waiting (cycle + 1) next?)) [(refreshEvent r.key cycle a).record]
  | .store _ => .ends w (.store (.answer a)) [] []
  | _ => .waits none

/-- A process that waits for a call. -/
inductive Process.Awaits (c : Call) : Process → Prop where
  | asking {bid deadline? attempts} : Awaits c (.asking bid deadline? attempts (.single c))
  | trying {bid} : Awaits c (.trying bid (.single c))
  | releasing {key owner} : Awaits c (.releasing key owner (.single c))
  | refreshing {r cycle next?} : Awaits c (.renewing r (.refreshing cycle next? (.single c)))
  | reading : Awaits c (.store (.errand (.single c)))

theorem Process.awaits {p : Process} {c : Call} (hc : p.call? = some c) : p.Awaits c := by
  unfold Process.call? at hc
  split at hc
  case h_1 => cases hc; exact .asking
  case h_2 => cases hc; exact .trying
  case h_3 => cases hc; exact .releasing
  case h_4 => cases hc; exact .refreshing
  case h_5 => cases hc; exact .reading
  case h_6 => cases hc

/-- A process with a call under way does what the call does, and goes on when
the call ends. -/
theorem turn_call {now : Instant} {w : World} {p : Process} {c : Call} (hc : p.call? = some c) :
    turn now w p =
      match Service.callTurn now w.service c with
      | .waits due? => .waits due?
      | .moves s c records => .moves (w.withService s) (p.withCall c) records
      | .ends s a _ records =>
          (p.continued (w.withService s) now a).after (records ++ s.traceOf c.request a) := by
  cases Process.awaits hc with
  | asking | trying | releasing =>
    simp only [turn, Service.turn_single]
    cases Service.callTurn now w.service c <;> rfl
  | refreshing =>
    simp only [turn, renewalTurn, Service.turn_single]
    cases Service.callTurn now w.service c <;> rfl
  | reading =>
    simp only [turn, Service.taskTurn, Service.turn_single]
    cases Service.callTurn now w.service c <;>
      simp [Turn.within, Process.continued, Turn.after, Process.withCall]

/-! ## Every turn is a deed -/

/-- The step of a turn, if there is one, is a deed. -/
def IsDeed (now : Instant) (w : World) (p : Process) : Turn World Process Result → Prop
  | .waits _ => True
  | .moves w' q _ => Deed now w p w' (some q) [] none
  | .ends w' result started _ => Deed now w p w' none started result.lease?

@[simp] theorem isDeed_after {now : Instant} {w : World} {p : Process}
    {t : Turn World Process Result} {records : List Log.Record} :
    IsDeed now w p (t.after records) ↔ IsDeed now w p t := by
  cases t <;> rfl

/-- An attempt that is answered wins the lock, or the acquisition goes on. -/
theorem isDeed_attempted {now : Instant} {w : World} {s : Service} {c : Call} {bid : Bid}
    {deadline? : Option Instant} {attempts : Nat} {a : Answer} {started : List Call}
    {records : List Log.Record} (hbid : bid.manager < w.managers.length)
    (h : Service.callTurn now w.service c = .ends s a started records) :
    IsDeed now w (.asking bid deadline? attempts (.single c))
      (attempted (w.withService s) now bid deadline? attempts a) := by
  cases a with
  | acquired =>
    have hhold := (w.withService s).hold_eq now bid
    simp only [attempted, won, hhold]
    exact .won rfl h rfl (held_of_hold hbid hhold)
  | occupied | value | done | removed | failed => exact .answered rfl h (by simp)

/-- A single attempt that is answered wins the lock or ends. -/
theorem isDeed_tried {now : Instant} {w : World} {s : Service} {c : Call} {bid : Bid} {a : Answer}
    {started : List Call} {records : List Log.Record} (hbid : bid.manager < w.managers.length)
    (h : Service.callTurn now w.service c = .ends s a started records) :
    IsDeed now w (.trying bid (.single c)) (tried (w.withService s) now bid a) := by
  cases a with
  | acquired =>
    have hhold := (w.withService s).hold_eq now bid
    simp only [tried, won, hhold]
    exact .won rfl h rfl (held_of_hold hbid hhold)
  | occupied | value | done | removed | failed => exact .answered rfl h (by simp)

/-- A process goes on with the answer to its call. -/
theorem isDeed_call {now : Instant} {w : World} {p : Process} {c : Call} (hc : p.call? = some c)
    (hbid : ∀ bid, p.bid? = some bid → bid.manager < w.managers.length) :
    IsDeed now w p (turn now w p) := by
  rw [turn_call hc]
  cases h : Service.callTurn now w.service c with
  | waits due? => trivial
  | moves s c' records => exact .underway hc h
  | ends s a started records =>
    rw [isDeed_after]
    cases Process.awaits hc with
    | asking => exact isDeed_attempted (hbid _ rfl) h
    | trying => exact isDeed_tried (hbid _ rfl) h
    | releasing | refreshing | reading => exact .answered hc h (by simp [Process.bid?])

/-- A new errand asks for what it was begun for. -/
theorem asksFor_errand {s : Service} (hs : s.wrap ≠ .primitive) (now : Instant) (r : Request) :
    AsksFor (s.errand now r) r :=
  ⟨s.call now r, Service.errand_eq_single hs now r, Service.call_sound s now r, rfl⟩

/-- A bid with an accepted lease is fit. -/
theorem fit_bid {w w' : World} {manager token : Nat} {key owner : String} {lease ttl : Duration}
    (httl : wholeSeconds? lease = some ttl) (hquiet : w.Quiet w')
    (hmanager : manager < w.managers.length) : Bid.Fit w' ⟨manager, key, owner, ttl, token⟩ where
  manager := by rw [hquiet.managers]; exact hmanager
  lease := ⟨_, isWritten_of_wholeSeconds? httl⟩

theorem isDeed_acquire {now : Instant} {w w₀ : World} {a : Action} {manager : Nat}
    {key owner cancel : String} {lease timeout : Duration} (hquiet : w₀.Quiet w)
    (hmanager : manager < w.managers.length) :
    IsDeed now w₀ (.action a) (acquire w now manager key owner lease timeout cancel) := by
  unfold acquire
  split
  next => exact .idle rfl trivial hquiet (by simp)
  next ttl httl =>
    have htoken := w.quiet_token cancel
    refine .idle rfl trivial (hquiet.trans htoken) ?_
    rintro _ ⟨⟩
    exact ⟨trivial, fit_bid httl htoken hmanager⟩

theorem isDeed_tryAcquire {now : Instant} {w : World} {a : Action} {manager : Nat}
    {key owner cancel : String} {lease : Duration} (hwrap : w.service.wrap ≠ .primitive)
    (hmanager : manager < w.managers.length) :
    IsDeed now w (.action a) (tryAcquire w now manager key owner lease cancel) := by
  unfold tryAcquire
  split
  next => exact .idle rfl trivial (.refl w) (by simp)
  next ttl httl =>
    have htoken := w.quiet_token cancel
    have hwrap' : (w.token cancel).2.service.wrap ≠ .primitive := by rwa [htoken.service]
    refine .idle rfl trivial htoken ?_
    rintro _ ⟨⟩
    exact ⟨trivial, fit_bid httl htoken hmanager, asksFor_errand hwrap' now _⟩

/-- The first step of an action is a deed. -/
theorem isDeed_begin {now : Instant} {w : World} {a : Action} (ha : a.Fit w)
    (hwrap : w.service.wrap ≠ .primitive) : IsDeed now w (.action a) (begin now w a) := by
  cases a with
  | acquire manager key owner lease timeout cancel => exact isDeed_acquire (.refl w) ha
  | acquireDefault manager key timeout cancel =>
    exact isDeed_acquire ⟨rfl, rfl, .refl _⟩ ha
  | tryAcquire manager key owner lease cancel => exact isDeed_tryAcquire hwrap ha
  | release manager key owner => exact .released (stopped_stop ha key owner)
  | cancel name => exact .idle rfl trivial (w.quiet_cancel name) (by simp)
  | child parent name => exact .idle rfl trivial (w.quiet_childToken parent name) (by simp)
  | config manager => exact .idle rfl trivial (.refl w) (by simp)
  | store a =>
    refine .idle rfl trivial (.refl w) ?_
    rintro _ ⟨⟩
    exact ⟨trivial, ha⟩

/-- The turns of a renewal between two refreshes are deeds. -/
theorem isDeed_waiting {now : Instant} {w : World} {r : Renewing} {cycle : Nat}
    {tick? : Option Instant} (hr : r.manager < w.managers.length) :
    IsDeed now w (.renewing r (.waiting cycle tick?))
      (renewalTurn now w r (.waiting cycle tick?)) := by
  simp only [renewalTurn]
  split
  next h => exact .retired (.inl h) (retired_retire hr)
  next hbudget =>
    split
    next h => exact .retired (.inr h) (retired_retire hr)
    next hcancelled =>
      cases tick? with
      | none => trivial
      | some tick =>
        simp only
        split
        next htick => exact .ticked (by omega) (by simpa using hcancelled) htick
        next => trivial

theorem isDeed_storeAction {now : Instant} {w : World} {a : StoreAction} (ha : a.Fit)
    (hwrap : w.service.wrap ≠ .primitive) :
    IsDeed now w (.store (.action a)) (turn now w (.store (.action a))) := by
  cases a with
  | request r =>
    cases r with
    | get k =>
      refine .idle rfl trivial ⟨rfl, rfl, .refl _⟩ ?_
      rintro _ ⟨⟩
      exact ⟨trivial, k, asksFor_errand hwrap now _⟩
    | set | delete | refresh | deleteIfEquals => cases ha
  | sleep d =>
    refine .idle rfl trivial ⟨rfl, rfl, .refl _⟩ ?_
    rintro _ ⟨⟩
    exact ⟨trivial, trivial⟩
  | value | ttl | size | requests | refreshCount | clearRequests | unavailable | refreshFails
  | refreshLatency | latency => exact .acted

/-- Every step of a fit process is a deed. -/
theorem turn_isDeed {now : Instant} {w : World} {p : Process} (hp : p.Fit w now)
    (hwrap : w.service.wrap ≠ .primitive) : IsDeed now w p (turn now w p) := by
  cases p with
  | action a => exact isDeed_begin hp hwrap
  | later due? a =>
    simp only [turn]
    split
    next =>
      refine .idle rfl trivial (.refl w) ?_
      rintro _ ⟨⟩
      exact ⟨trivial, hp⟩
    next => trivial
  | attempting bid deadline? attempts =>
    simp only [turn]
    split
    next => exact .idle rfl trivial (.refl w) (by simp)
    next =>
      refine .idle rfl trivial (.refl w) ?_
      rintro _ ⟨⟩
      exact ⟨trivial, hp, asksFor_errand hwrap now _⟩
  | resting bid deadline? attempts due? =>
    simp only [turn]
    split
    next => exact .idle rfl trivial (.refl w) (by simp)
    next =>
      split
      next =>
        refine .idle rfl trivial (.refl w) ?_
        rintro _ ⟨⟩
        exact ⟨trivial, hp⟩
      next => trivial
  | asking bid deadline? attempts e =>
    obtain ⟨hbid, c, rfl, -⟩ := hp
    refine isDeed_call rfl ?_
    rintro _ ⟨⟩
    exact hbid.manager
  | trying bid e =>
    obtain ⟨hbid, c, rfl, -⟩ := hp
    refine isDeed_call rfl ?_
    rintro _ ⟨⟩
    exact hbid.manager
  | releasing key owner e =>
    obtain ⟨c, rfl, -⟩ := hp
    exact isDeed_call rfl (by simp [Process.bid?])
  | renewing r stage =>
    cases stage with
    | starting =>
      simp only [turn, renewalTurn]
      split
      next h => exact .unread h (retired_retire hp.1.manager)
      next first h => exact .begun h
    | waiting cycle tick? => exact isDeed_waiting hp.1.manager
    | refreshing cycle next? e =>
      obtain ⟨-, -, -, c, rfl, -⟩ := hp
      exact isDeed_call rfl (by simp [Process.bid?])
  | store task =>
    cases task with
    | action a => exact isDeed_storeAction hp hwrap
    | errand e =>
      obtain ⟨k, c, rfl, -⟩ := hp
      exact isDeed_call rfl (by simp [Process.bid?])
    | asleep due? =>
      simp only [turn, Service.taskTurn]
      split
      next => exact .idle rfl trivial ⟨rfl, rfl, .refl _⟩ (by simp)
      next => trivial

/-! ## What all deeds have in common -/

/-- What a process asks the store for. -/
inductive Process.Asks : Process → Request → Prop where
  | bid {p bid} : p.bid? = some bid → Asks p (.set bid.key bid.owner bid.ttl)
  | release {key owner e} : Asks (.releasing key owner e) (.deleteIfEquals key owner)
  | refresh {r cycle next? e} :
      Asks (.renewing r (.refreshing cycle next? e)) (.refresh r.key r.interval)
  | read {task k} : Asks (.store task) (.get k)

/-- The call of a fit process asks for what the process is about. -/
theorem Process.Fit.asks {w : World} {now : Instant} {p : Process} {c : Call} (hp : p.Fit w now)
    (hc : p.call? = some c) : c.Sound ∧ p.Asks c.request := by
  cases Process.awaits hc with
  | asking | trying =>
    obtain ⟨-, _, ⟨⟩, hsound, hrequest⟩ := hp
    exact ⟨hsound, by rw [hrequest]; exact .bid rfl⟩
  | releasing =>
    obtain ⟨_, ⟨⟩, hsound, hrequest⟩ := hp
    exact ⟨hsound, by rw [hrequest]; exact .release⟩
  | refreshing =>
    obtain ⟨-, -, -, _, ⟨⟩, hsound, hrequest⟩ := hp
    exact ⟨hsound, by rw [hrequest]; exact .refresh⟩
  | reading =>
    obtain ⟨_, _, ⟨⟩, hsound, hrequest⟩ := hp
    exact ⟨hsound, by rw [hrequest]; exact .read⟩

/-- A bid asks for its key to be set. -/
theorem Process.Fit.request_of_bid {w : World} {now : Instant} {p : Process} {c : Call} {bid : Bid}
    (hp : p.Fit w now) (hc : p.call? = some c) (hbid : p.bid? = some bid) :
    c.request = .set bid.key bid.owner bid.ttl := by
  obtain ⟨-, hasks⟩ := hp.asks hc
  generalize c.request = request at hasks
  cases hasks with
  | bid hbid' => rw [hbid] at hbid'; cases hbid'; rfl
  | release | refresh | read => cases hbid

/-- A refresh is for the key and the interval of its renewal. -/
theorem Process.Fit.request_of_refreshing {w : World} {now : Instant} {r : Renewing} {cycle : Nat}
    {next? : Option Instant} {e : Errand} {c : Call}
    (hp : (Process.renewing r (.refreshing cycle next? e)).Fit w now)
    (hc : (Process.renewing r (.refreshing cycle next? e)).call? = some c) :
    c.request = .refresh r.key r.interval := by
  obtain ⟨-, -, -, c', rfl, -, hrequest⟩ := hp
  cases hc
  exact hrequest

variable {now : Instant} {w w' : World} {p : Process} {next? : Option Process}
  {started : List Process} {lease? : Option Lease}

/-- A deed leaves the entries of the store alone, but for expired ones, or it is
the end of a call. -/
theorem Deed.kept_or_served (h : Deed now w p w' next? started lease?) (hp : p.Fit w now) :
    (lease? = none ∧ p.answer? w now = none ∧ Service.Kept now w.service w'.service) ∨
      ∃ c a, p.call? = some c ∧ p.answer? w now = some a ∧
        Service.Served now w.service c a w'.service ∧
        (lease? = none ↔ (p.bid? = none ∨ a ≠ .acquired)) := by
  cases h with
  | idle hc _ hquiet _ =>
    refine .inl ⟨rfl, by simp only [Process.answer?, hc], ?_⟩
    rw [hquiet.service]
    exact .refl _ _
  | acted => exact .inl ⟨rfl, rfl, Service.act_kept _ _ _⟩
  | underway hc hturn =>
    refine .inl ⟨rfl, ?_, Service.kept_of_callTurn hturn⟩
    simp only [Process.answer?, hc, hturn]
  | @answered _ c s a _ _ hc hturn hlost =>
    have hserved := Service.served_of_callTurn (hp.asks hc).1 hturn
    have hanswer : p.answer? w now = some a := by simp only [Process.answer?, hc, hturn]
    refine .inr ⟨_, _, hc, hanswer, hserved, iff_of_true rfl ?_⟩
    simpa [Decidable.imp_iff_not_or] using hlost
  | won hc hturn hbid hheld =>
    have hserved := Service.served_of_callTurn (hp.asks hc).1 hturn
    have hanswer : p.answer? w now = some .acquired := by simp only [Process.answer?, hc, hturn]
    refine .inr ⟨_, .acquired, hc, hanswer, ?_, iff_of_false (by simp) (by simp [hbid])⟩
    rw [hheld.service]
    exact hserved
  | released hstopped => exact .inl ⟨rfl, rfl, by rw [hstopped.service]; exact .refl _ _⟩
  | begun | ticked => exact .inl ⟨rfl, rfl, .refl _ _⟩
  | unread _ hretired => exact .inl ⟨rfl, rfl, by rw [hretired.service]; exact .refl _ _⟩
  | retired _ hretired => exact .inl ⟨rfl, rfl, by rw [hretired.service]; exact .refl _ _⟩

/-- Deeds only move a world forward. -/
theorem Deed.le (h : Deed now w p w' next? started lease?) (hp : p.Fit w now) : w.Le w' := by
  cases h with
  | idle _ _ hquiet _ => exact hquiet.le
  | acted =>
    have hkept := Service.act_kept now w.service ‹_›
    exact World.le_withService hkept.face hkept.wrap
  | underway hc hturn =>
    have hkept := Service.kept_of_callTurn hturn
    exact World.le_withService hkept.face hkept.wrap
  | answered hc hturn =>
    have hserved := Service.served_of_callTurn (hp.asks hc).1 hturn
    exact World.le_withService hserved.face hserved.wrap
  | won hc hturn _ hheld =>
    have hserved := Service.served_of_callTurn (hp.asks hc).1 hturn
    exact (World.le_withService hserved.face hserved.wrap).trans hheld.le
  | released hstopped => exact hstopped.le
  | begun | ticked => exact .refl _
  | unread _ hretired => exact hretired.le
  | retired _ hretired => exact hretired.le

/-- How long it takes to set a key stays what it is, unless somebody changes it. -/
theorem Deed.latency (h : Deed now w p w' next? started lease?) (hp : p.Fit w now)
    (hlatency : ∀ d, p ≠ .store (.action (.latency .set d))) :
    w'.service.latency .set = w.service.latency .set := by
  have hends : ∀ {call s a calls records}, p.call? = some call →
      Service.callTurn now w.service call = .ends s a calls records →
      s.latency = w.service.latency := by
    intro call s a calls records hcall hturn
    obtain ⟨store, rfl, -⟩ := Service.callTurn_ends (hp.asks hcall).1 hturn
    rfl
  cases h with
  | idle _ _ hquiet => rw [hquiet.service]
  | @acted a =>
    cases a with
    | latency kind d =>
      have hkind : ¬ Request.Kind.set = kind := by rintro rfl; exact hlatency d rfl
      exact if_neg hkind
    | size =>
      simp only [World.withService, Service.act]
      split <;> rfl
    | clearRequests | unavailable | refreshFails | refreshLatency =>
      simp only [World.withService, Service.act, Service.alterFaulty]
      split <;> rfl
    | request | value | ttl | requests | refreshCount | sleep => rfl
  | underway _ hturn =>
    obtain ⟨-, -, -, store, rfl, -⟩ := Service.callTurn_moves hturn
    rfl
  | answered hcall hturn => exact congrFun (hends hcall hturn) _
  | won hcall hturn _ hheld =>
    rw [hheld.service]
    exact congrFun (hends hcall hturn) _
  | released hstopped => rw [hstopped.service]
  | begun | ticked => rfl
  | unread _ hretired => rw [hretired.service]
  | retired _ hretired => rw [hretired.service]

/-- A fit process stays fit while others go on and time passes. -/
theorem Process.Fit.mono {now' : Instant} (hp : p.Fit w now) (hle : w.Le w')
    (hnow : now.nanos ≤ now'.nanos) : p.Fit w' now' := by
  have hbid : ∀ {bid : Bid}, bid.Fit w → bid.Fit w' := fun h =>
    ⟨by rw [hle.managers]; exact h.manager, h.lease⟩
  have haction : ∀ {a : Action}, a.Fit w → a.Fit w' := by
    intro a ha
    cases a with
    | acquire | acquireDefault | tryAcquire | release =>
      exact Nat.lt_of_lt_of_le ha (Nat.le_of_eq hle.managers.symm)
    | cancel | child | config => trivial
    | store a => exact ha
  cases p with
  | action a => exact haction hp
  | later due? a => exact haction hp
  | attempting bid deadline? attempts => exact hbid hp
  | asking bid deadline? attempts e => exact ⟨hbid hp.1, hp.2⟩
  | resting bid deadline? attempts due? => exact hbid hp
  | trying bid e => exact ⟨hbid hp.1, hp.2⟩
  | releasing key owner e => exact hp
  | renewing r stage =>
    obtain ⟨hr, hstage⟩ := hp
    refine ⟨⟨?_, ?_, ?_, hr.lease⟩, ?_⟩
    · rw [hle.managers]
      exact hr.manager
    · exact Nat.lt_of_lt_of_le hr.generation (hle.generation _)
    · exact Nat.lt_of_lt_of_le hr.token hle.tokens.length
    · cases stage with
      | starting => trivial
      | waiting cycle tick? => exact hstage
      | refreshing cycle next? e => exact ⟨Nat.le_trans hstage.1 hnow, hstage.2⟩
  | store task =>
    cases task with
    | action a => exact hp
    | errand e => exact hp
    | asleep => trivial

/-- The first tick comes an interval after the acquisition, and no tick comes
before another one that was due. -/
theorem le_of_nextTick?_eq_some {tick now t : Instant} {interval : Duration}
    (h : nextTick? tick now interval = some t) : tick.nanos ≤ t.nanos := by
  simp only [nextTick?, Option.bind_eq_some_iff] at h
  obtain ⟨d, -, hd⟩ := h
  exact Instant.le_of_after?_eq_some hd

theorem Process.Fit.withCall {c c' : Call} (hp : p.Fit w now) (hc : p.call? = some c)
    (hsound : c'.Sound) (hrequest : c'.request = c.request) : (p.withCall c').Fit w now := by
  cases Process.awaits hc with
  | asking | trying =>
    obtain ⟨hbid, _, ⟨⟩, -, hfor⟩ := hp
    exact ⟨hbid, c', rfl, hsound, hrequest.trans hfor⟩
  | releasing =>
    obtain ⟨_, ⟨⟩, -, hfor⟩ := hp
    exact ⟨c', rfl, hsound, hrequest.trans hfor⟩
  | refreshing =>
    obtain ⟨hr, hnow, hnext, _, ⟨⟩, -, hfor⟩ := hp
    exact ⟨hr, hnow, hnext, c', rfl, hsound, hrequest.trans hfor⟩
  | reading =>
    obtain ⟨k, _, ⟨⟩, -, hfor⟩ := hp
    exact ⟨k, c', rfl, hsound, hrequest.trans hfor⟩

theorem Process.Fit.resumed (hp : p.Fit w now) :
    ∀ q, p.resumed w now = some q → q.Fit w now := by
  intro q hq
  cases p with
  | action | later | attempting | resting | trying | releasing | store => cases hq
  | asking bid deadline? attempts e =>
    cases hq
    exact hp.1
  | renewing r stage =>
    cases stage with
    | starting | waiting => cases hq
    | refreshing cycle next? e =>
      cases hq
      exact ⟨hp.1, hp.2.2.1⟩

/-- A fit process goes on as a fit process. -/
theorem Deed.fit_next (h : Deed now w p w' next? started lease?) (hp : p.Fit w now)
    (hwrap : w.service.wrap ≠ .primitive) : ∀ q, next? = some q → q.Fit w' now := by
  have hle := h.le hp
  cases h with
  | idle _ _ _ hnext => exact fun q hq => (hnext q hq).2
  | acted | won | unread | retired =>
    intro q hq
    cases hq
  | underway hc hturn =>
    rintro _ ⟨⟩
    obtain ⟨hsound, hrequest, -, -⟩ := Service.callTurn_moves hturn
    exact (Process.Fit.withCall hp hc hsound hrequest).mono hle (Nat.le_refl _)
  | answered hc hturn =>
    exact Process.Fit.resumed (hp.mono hle (Nat.le_refl _))
  | released =>
    rintro _ ⟨⟩
    exact asksFor_errand hwrap now _
  | begun hfirst =>
    rintro _ ⟨⟩
    refine ⟨hp.1, ?_⟩
    rintro _ ⟨⟩
    exact Nat.le_of_eq (Instant.nanos_of_after?_eq_some hfirst).symm
  | ticked _ _ htick =>
    rintro _ ⟨⟩
    have hfirst := hp.2 _ rfl
    refine ⟨hp.1, Nat.le_trans hfirst htick, fun t ht => ?_, asksFor_errand hwrap now _⟩
    exact Nat.le_trans hfirst (le_of_nextTick?_eq_some ht)

/-- What goes on as a release was that release, or it begins, and stops the
renewal of its key. -/
theorem Deed.of_releasing {key owner : String} {e : Errand}
    (h : Deed now w p w' next? started lease?) (hp : p.Fit w now)
    (hnext : next? = some (.releasing key owner e)) :
    (∃ e₀, p = .releasing key owner e₀) ∨
      ∃ manager, manager < w.managers.length ∧ Stopped w manager key owner w' := by
  cases h with
  | idle _ _ _ hidle => exact absurd (hidle _ hnext).1 id
  | acted | won | unread | retired | begun | ticked => cases hnext
  | released hstopped => cases hnext; exact .inr ⟨_, hp, hstopped⟩
  | underway hc =>
    cases Process.awaits hc with
    | asking | trying | refreshing | reading => cases hnext
    | releasing => cases hnext; exact .inl ⟨_, rfl⟩
  | answered hc =>
    cases Process.awaits hc with
    | asking | trying | releasing | refreshing | reading => cases hnext

/-- Only a bid that wins starts something: a renewal. -/
theorem Deed.of_started {q : Process} (h : Deed now w p w' next? started lease?)
    (hq : q ∈ started) : ∃ l r, lease? = some l ∧ started = [.renewing r .starting] := by
  cases h with
  | idle | acted | underway | answered | released | begun | ticked | unread | retired => cases hq
  | won => exact ⟨_, _, rfl, rfl⟩

theorem Process.Fit.bid {bid : Bid} (hp : p.Fit w now) (hbid : p.bid? = some bid) :
    bid.Fit w := by
  cases p with
  | action | later | attempting | resting | releasing | renewing | store => cases hbid
  | asking => cases hbid; exact hp.1
  | trying => cases hbid; exact hp.1

/-- A renewal goes on as the same renewal. -/
theorem Deed.renewing {r : Renewing} {stage : RenewalStage}
    (h : Deed now w (.renewing r stage) w' next? started lease?) :
    ∀ q, next? = some q → ∃ stage', q = .renewing r stage' := by
  intro q hq
  generalize hp : Process.renewing r stage = p at h
  cases h with
  | idle _ hplain => subst hp; exact absurd hplain id
  | acted | won | unread | retired => cases hq
  | released => cases hp
  | underway hc =>
    subst hp
    cases hq
    cases stage with
    | starting | waiting => exact ⟨_, rfl⟩
    | refreshing => exact ⟨_, rfl⟩
  | answered hc =>
    subst hp
    cases stage with
    | starting | waiting => cases hc
    | refreshing => cases hq; exact ⟨_, rfl⟩
  | begun => cases hp; cases hq; exact ⟨_, rfl⟩
  | ticked => cases hp; cases hq; exact ⟨_, rfl⟩

/-- What a fit process starts is fit. -/
theorem Deed.fit_started (h : Deed now w p w' next? started lease?) (hp : p.Fit w now) :
    ∀ q, q ∈ started → q.Fit w' now := by
  have hle := h.le hp
  cases h with
  | idle | acted | underway | answered | released | begun | ticked | unread | retired => simp
  | won hc hturn hbid hheld =>
    intro q hq
    rw [List.mem_singleton] at hq
    subst hq
    have hfit := hp.bid hbid
    refine ⟨⟨?_, ?_, hheld.token, ?_⟩, trivial⟩
    · rw [hle.managers, hheld.renewal]
      exact hfit.manager
    · have hgeneration := hheld.generation
      rw [hheld.renewal] at hgeneration ⊢
      exact hgeneration
    · obtain ⟨n, hn⟩ := hfit.lease
      rw [hheld.renewal]
      exact ⟨_, n, hn⟩

/-- A deed that acquires a lease is a bid that wins. -/
theorem Deed.of_lease {l : Lease} (h : Deed now w p w' next? started (some l)) (hp : p.Fit w now) :
    ∃ bid c s r, p.call? = some c ∧ p.bid? = some bid ∧ started = [.renewing r .starting] ∧
      Service.Served now w.service c .acquired s ∧ Held (w.withService s) now bid l r w' := by
  cases h with
  | won hc hturn hbid hheld =>
    exact ⟨_, _, _, _, hc, hbid, rfl, Service.served_of_callTurn (hp.asks hc).1 hturn, hheld⟩

/-! ## The deeds of a renewal -/

/-- A renewal begins to wait for its first tick, unless no clock can read it. -/
theorem Deed.of_starting {r : Renewing}
    (h : Deed now w (.renewing r .starting) w' next? started lease?) :
    r.acquiredAt.after? r.interval = none ∨
      ∃ first, r.acquiredAt.after? r.interval = some first ∧ w' = w ∧ started = [] ∧
        next? = some (.renewing r (.waiting 1 (some first))) := by
  cases h with
  | idle _ hplain => exact absurd hplain id
  | underway hc => cases hc
  | answered hc => cases hc
  | won hc => cases hc
  | begun hfirst => exact .inr ⟨_, hfirst, rfl, rfl, rfl⟩
  | unread hnone => exact .inl hnone

/-- A renewal that waits asks for a refresh when its tick has come, or it ends. -/
theorem Deed.of_waiting {r : Renewing} {cycle : Nat} {tick? : Option Instant}
    (h : Deed now w (.renewing r (.waiting cycle tick?)) w' next? started lease?) :
    (∃ tick, tick? = some tick ∧ cycle ≤ r.budget ∧ w.tokens.isCancelled r.token = false ∧
      tick ≤ now ∧ w' = w ∧ started = [] ∧
      next? = some (.renewing r (.refreshing cycle (nextTick? tick now r.interval)
        (w.service.errand now (.refresh r.key r.interval))))) ∨
    ((r.budget < cycle ∨ w.tokens.isCancelled r.token = true) ∧ Retired w r w' ∧ started = [] ∧
      next? = none) := by
  cases h with
  | idle _ hplain => exact absurd hplain id
  | underway hc => cases hc
  | answered hc => cases hc
  | won hc => cases hc
  | ticked hbudget huncancelled htick =>
    exact .inl ⟨_, rfl, hbudget, huncancelled, htick, rfl, rfl, rfl⟩
  | retired hover hretired => exact .inr ⟨hover, hretired, rfl, rfl⟩

/-- A renewal that waits for its tick may still make its refresh. -/
theorem waits_of_waiting {r : Renewing} {cycle : Nat} {tick : Instant} {due? : Option Instant}
    (h : turn now w (.renewing r (.waiting cycle (some tick))) = .waits due?) :
    due? = some tick ∧ now < tick ∧ cycle ≤ r.budget ∧ w.tokens.isCancelled r.token = false := by
  simp only [turn, renewalTurn] at h
  split at h
  next => cases h
  next hbudget =>
    split at h
    next => cases h
    next huncancelled =>
      split at h
      next => cases h
      next hnow =>
        cases h
        exact ⟨rfl, Nat.lt_of_not_le hnow, Nat.le_of_not_lt hbudget,
          Bool.eq_false_iff.mpr huncancelled⟩

/-- A renewal whose refresh is under way goes on as the call does, and waits for
the next tick when the call ends. -/
theorem Deed.of_refreshing {r : Renewing} {cycle : Nat} {tick? : Option Instant} {c : Call}
    (h : Deed now w (.renewing r (.refreshing cycle tick? (.single c))) w' next? started lease?) :
    (∃ s c' records, Service.callTurn now w.service c = .moves s c' records ∧
      w' = w.withService s ∧ started = [] ∧
      next? = some (.renewing r (.refreshing cycle tick? (.single c')))) ∨
    (∃ s a calls records, Service.callTurn now w.service c = .ends s a calls records ∧
      w' = w.withService s ∧ started = [] ∧
      next? = some (.renewing r (.waiting (cycle + 1) tick?))) := by
  cases h with
  | idle _ hplain => exact absurd hplain id
  | underway hc hturn => cases hc; exact .inl ⟨_, _, _, hturn, rfl, rfl, rfl⟩
  | answered hc hturn => cases hc; exact .inr ⟨_, _, _, _, hturn, rfl, rfl, rfl⟩
  | won _ _ hbid => cases hbid

/-- Who starts a renewal has been told that he has taken its key. -/
theorem Deed.acquired_of_started {r : Renewing} (h : Deed now w p w' next? started lease?)
    (hstarted : started = [.renewing r .starting]) :
    p.answer? w now = some .acquired ∧
      ∃ bid, p.bid? = some bid ∧ bid.manager = r.manager ∧ bid.key = r.key := by
  cases h with
  | idle | acted | underway | answered | released | begun | ticked | unread | retired =>
    cases hstarted
  | won hc hturn hbid hheld =>
    cases hstarted
    refine ⟨?_, _, hbid, ?_, ?_⟩
    · simp only [Process.answer?, hc, hturn]
    · rw [hheld.renewal]
    · rw [hheld.renewal]

end Lock

end Leasehold
