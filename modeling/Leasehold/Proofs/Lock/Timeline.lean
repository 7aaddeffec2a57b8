import Leasehold.Proofs.Lock.Expiry
import Leasehold.Proofs.Lock.Runs

/-!
# How long a renewed lease lives

A lease is renewed on a schedule that is fixed when it is acquired.  Whether
each refresh fails, how long it takes and how many there are is the `Course` of
the renewal.  If nobody else releases, refreshes or takes the key and time passes
only while all processes wait, the course determines everything: which refreshes
are made when, where the renewal stands (`Reached`), and when the entry of the key
expires (`Expires`).

`Timeline` is kept by every step (`Timeline.step`), so it holds all along a run
(`timeline_of_run`).  `Timeline.value?` reads off whether the key is held.
-/

namespace Leasehold.Lock

open Simulation

/-! ## Entries that expire -/

/-- A key has a value up to an instant: there is an entry with this deadline, or
there is none any more. -/
def Expires (service : Service) (now : Instant) (k v : String) (deadline : Nat) : Prop :=
  (∃ e t, service.stored? k = some e ∧ e.value = v ∧ e.deadline? = some t ∧ t.nanos = deadline) ∨
    (service.stored? k = none ∧ deadline < now.nanos)

section

variable {service service' : Service} {now now' : Instant} {k v : String} {deadline : Nat}

theorem Expires.pass (h : Expires service now k v deadline) (hle : now.nanos ≤ now'.nanos) :
    Expires service now' k v deadline :=
  h.imp_right fun ⟨hnone, hlt⟩ => ⟨hnone, Nat.lt_of_lt_of_le hlt hle⟩

/-- What is live at an instant up to the deadline. -/
theorem Expires.live? (h : Expires service now k v deadline) (hface : service.face = .simulated) :
    if now.nanos ≤ deadline then
      ∃ e, service.live? now k = some e ∧ service.stored? k = some e ∧ e.value = v
    else service.live? now k = none := by
  obtain ⟨e, t, he, hvalue, ht, rfl⟩ | ⟨hnone, hlt⟩ := h
  · have hfind : service.store.contents.entries.find? k = some e := he
    have hlive : e.liveAt now = decide (now.nanos ≤ t.nanos) := by
      simp only [Entry.liveAt, ht]
      rfl
    split
    next hle =>
      refine ⟨e, ?_, he, hvalue⟩
      rw [Service.live?, hface]
      exact Memory.live?_eq_some.mpr ⟨hfind, by rw [Face.read, hlive]; exact decide_eq_true hle⟩
    next hle =>
      rw [Service.live?, hface, Memory.live?, hfind, Option.filter_some, Face.read, hlive,
        decide_eq_false hle]
      rfl
  · have hfind : service.store.contents.entries.find? k = none := hnone
    rw [if_neg (Nat.not_le.mpr hlt), Service.live?, hface, Memory.live?, hfind]
    rfl

/-- The value of a key that expires. -/
theorem Expires.value? (h : Expires service now k v deadline) (hface : service.face = .simulated) :
    service.value? now k = if now.nanos ≤ deadline then some v else none := by
  have hlive := h.live? hface
  rw [Service.value?_eq]
  split
  next hle =>
    rw [if_pos hle] at hlive
    obtain ⟨e, he, -, hvalue⟩ := hlive
    rw [he, Option.map_some, hvalue]
  next hle =>
    rw [if_neg hle] at hlive
    rw [hlive]
    rfl

/-- Looking at a key only drops an entry that has expired. -/
theorem Expires.of_live (h : Expires service now k v deadline) (hface : service.face = .simulated)
    (hafter : service'.stored? k = service.stored? k ∨
      service'.stored? k = service.live? now k) : Expires service' now k v deadline := by
  obtain hsame | hlive := hafter
  · exact h.imp (fun ⟨e, t, he, hrest⟩ => ⟨e, t, hsame.trans he, hrest⟩)
      fun ⟨hnone, hlt⟩ => ⟨hsame.trans hnone, hlt⟩
  · have hcases := h.live? hface
    split at hcases
    next hle =>
      obtain ⟨e, he, hstored, -⟩ := hcases
      refine h.imp (fun ⟨e', t, he', hrest⟩ => ⟨e', t, ?_, hrest⟩)
        fun ⟨_, hlt⟩ => absurd hlt (Nat.not_lt.mpr hle)
      rw [hlive, he, ← hstored, he']
    next hle => exact .inr ⟨hlive.trans hcases, Nat.lt_of_not_le hle⟩

/-- A refresh moves the deadline if it does not fail and the entry is live. -/
theorem Expires.refreshed {store : Store} {fails : Bool} {ttl : Duration} {a : Answer}
    (h : Expires service now k v deadline) (hface : service.face = .simulated)
    (hlimit : fails = false → now.nanos + ttl.nanos < 9223372036854775808000000000)
    (hrefreshed : Service.Refreshed (service.face.read now) service.store.contents k ttl fails a
      store.contents)
    (hstored : service'.stored? k = store.contents.entries.find? k) :
    Expires service' now k v
      (if fails = false ∧ now.nanos ≤ deadline then now.nanos + ttl.nanos else deadline) := by
  rw [hface] at hrefreshed
  generalize store.contents = m at hrefreshed hstored
  cases hrefreshed with
  | fails e =>
    rw [if_neg (by simp)]
    exact h.of_live hface (.inl hstored)
  | serves =>
    have hkey : k = (Request.refresh k ttl).key := rfl
    rw [Memory.find?_answer, if_pos hkey] at hstored
    have hcases := h.live? hface
    rw [Service.live?, hface] at hcases
    split at hcases
    next hle =>
      obtain ⟨e, he, -, hvalue⟩ := hcases
      rw [← hkey, he] at hstored
      rw [if_pos ⟨rfl, hle⟩]
      exact .inl ⟨_, _, hstored, hvalue, Instant.after?_of_lt (hlimit rfl), rfl⟩
    next hle =>
      rw [← hkey, hcases] at hstored
      rw [if_neg fun hboth => hle hboth.2]
      exact .inr ⟨hstored, Nat.lt_of_not_le hle⟩

end

/-! ## The course of a renewal -/

/-- What the refreshes of a renewal meet. -/
structure Course where
  /-- Whether the refresh of a number fails. -/
  fails : Nat → Bool
  /-- How long the refresh of a number takes, in nanoseconds. -/
  delay : Nat → Nat
  /-- How many refreshes there are. -/
  last : Nat

/-- The tick of a number, in nanoseconds. -/
def Lease.tick (l : Lease) (n : Nat) : Nat := l.acquiredAt.nanos + n * l.renewalInterval.nanos

/-- When the refresh of a number takes effect, in nanoseconds. -/
def Lease.lands (l : Lease) (x : Course) (n : Nat) : Nat :=
  l.acquiredAt.nanos + landing l.renewalInterval.nanos x.delay n

/-- The deadline of the entry after the given number of refreshes, in nanoseconds. -/
def Lease.deadline (l : Lease) (x : Course) (n : Nat) : Nat :=
  l.acquiredAt.nanos + expiry l.duration.nanos l.renewalInterval.nanos x.delay x.fails n

theorem Lease.tick_succ (l : Lease) (n : Nat) :
    l.tick (n + 1) = l.tick n + l.renewalInterval.nanos := by
  rw [tick, tick, Nat.succ_mul, Nat.add_assoc]

theorem Lease.tick_le (l : Lease) {m n : Nat} (h : m ≤ n) : l.tick m ≤ l.tick n :=
  Nat.add_le_add_left (Nat.mul_le_mul_right _ h) _

theorem Lease.lands_eq (l : Lease) (x : Course) (n : Nat) :
    l.lands x n = l.tick n + x.delay n := by
  simp only [lands, tick, landing, Nat.add_assoc]

theorem Lease.deadline_succ (l : Lease) (x : Course) (n : Nat) :
    l.deadline x (n + 1) =
      if x.fails (n + 1) = false ∧ l.lands x (n + 1) ≤ l.deadline x n then
        l.lands x (n + 1) + l.renewalInterval.nanos
      else l.deadline x n := by
  simp only [deadline, lands, expiry, Nat.add_le_add_iff_left]
  by_cases h : x.fails (n + 1) = false ∧
      landing l.renewalInterval.nanos x.delay (n + 1) ≤
        expiry l.duration.nanos l.renewalInterval.nanos x.delay x.fails n
  · rw [if_pos h, if_pos h, Nat.add_assoc]
  · rw [if_neg h, if_neg h]

/-- A course of no more refreshes than the budget allows, none of which takes
longer than an interval, and whose instants can be read. -/
structure Course.Fits (x : Course) (l : Lease) (r : Renewing) : Prop where
  last_le : x.last ≤ r.budget
  delay_le : ∀ n, 1 ≤ n → n ≤ x.last → x.delay n ≤ l.renewalInterval.nanos
  duration_lt : l.acquiredAt.nanos + l.duration.nanos < 9223372036854775808000000000
  tick_lt : l.tick (x.last + 1) < 9223372036854775808000000000
  lands_lt : ∀ n, 1 ≤ n → n ≤ x.last →
    l.lands x n + l.renewalInterval.nanos < 9223372036854775808000000000

/-- The refreshes of a key in a journal: when they were asked for, and for which
time to live. -/
def refreshCalls (k : String) (journal : List Finished) : List (Nat × Duration) :=
  journal.filterMap fun f =>
    match f.request with
    | .refresh key ttl => if key = k then some (f.started.nanos, ttl) else none
    | _ => none

/-- Where a renewal stands when the given number of refreshes are over. -/
inductive Reached (l : Lease) (r : Renewing) (own : Nat) (x : Course) (s : Locks) : Nat → Prop where
  | starting :
      s.process? own = some (.renewing r .starting) → s.now = l.acquiredAt → Reached l r own x s 0
  | waiting {n tick} :
      s.process? own = some (.renewing r (.waiting (n + 1) (some tick))) →
      tick.nanos = l.tick (n + 1) → l.tick n ≤ s.now.nanos → s.now ≤ tick → n ≤ x.last →
      Reached l r own x s n
  | arriving {n next} :
      s.process? own = some (.renewing r (.refreshing (n + 1) (some next)
        (.single ⟨.refresh l.key l.renewalInterval, s.now, .approaching (some s.now)⟩))) →
      s.now.nanos = l.tick (n + 1) → next.nanos = l.tick (n + 2) → n + 1 ≤ x.last →
      Reached l r own x s n
  | inside {n next due started} :
      s.process? own = some (.renewing r (.refreshing (n + 1) (some next)
        (.single ⟨.refresh l.key l.renewalInterval, started,
          .refreshing l.key l.renewalInterval (some due) (x.fails (n + 1))⟩))) →
      started.nanos = l.tick (n + 1) → due.nanos = l.lands x (n + 1) → s.now ≤ due →
      started ≤ s.now → next.nanos = l.tick (n + 2) → n + 1 ≤ x.last →
      s.world.service.store.isFaulty = true → Reached l r own x s n
  | ended :
      s.process? own = none → l.tick x.last ≤ s.now.nanos →
      l.tick r.budget ≤ s.now.nanos ∨ s.world.tokens.isCancelled r.token = true →
      Reached l r own x s x.last

/-- Where a renewal stands, what has become of the entry of its key, and which
refreshes were made: one at each tick, for an interval.  `calls` are those that
had been answered when the lease was acquired. -/
structure Timeline (calls : List Finished) (l : Lease) (r : Renewing) (own : Nat) (x : Course)
    (s : Locks) (n : Nat) : Prop where
  reached : Reached l r own x s n
  entry : Expires s.world.service s.now l.key l.owner (l.deadline x n)
  journal : refreshCalls l.key s.world.service.journal =
    refreshCalls l.key calls ++ (List.range n).map fun j => (l.tick (j + 1), l.renewalInterval)

/-- The number of the refresh that a renewal is about to send to the store. -/
def Process.arriving? : Process → Option Nat
  | .renewing _ (.refreshing n _ (.single ⟨_, _, .approaching _⟩)) => some n
  | _ => none

/-- A refresh reaches the store at once, and there it meets what a course says. -/
def Course.Meets (x : Course) (service : Service) (p : Process) : Prop :=
  service.latency .refresh = .zero ∧
    ∀ n ∈ p.arriving?, service.store.failsRefresh = x.fails n ∧
      service.store.refreshDelay.nanos = x.delay n

instance (x : Course) (service : Service) (p : Process) : Decidable (x.Meets service p) :=
  inferInstanceAs (Decidable (_ ∧ ∀ n ∈ p.arriving?, _))

/-- Time passes only while all processes wait, and the refreshes of a renewal meet
what its course says.  It is not cancelled before the tick of its last refresh,
and if it is to make fewer than its budget allows it is cancelled by the tick that
would come next.  No other process releases, refreshes or takes the key. -/
structure Follows (l : Lease) (r : Renewing) (own : Nat) (x : Course) (s : Locks)
    (c : Choice Process) (s' : Locks) : Prop where
  admitted : Admitted s c s'
  prompt : Prompt turn s c s'
  course : c.IsTurn own → ∀ p ∈ s.process? own, x.Meets s.world.service p
  uncancelled : s.world.tokens.isCancelled r.token = true → l.tick x.last < s.now.nanos
  cancelled : x.last < r.budget → l.tick (x.last + 1) ≤ s.now.nanos →
    s.world.tokens.isCancelled r.token = true
  unreleased : ∀ i, c.IsTurn i → ∀ p ∈ s.process? i, ¬ p.Releases l.key l.owner
  unrefreshed : ∀ i, c.IsTurn i → i ≠ own → ∀ p ∈ s.process? i, ¬ p.Refreshes l.key
  untaken : ∀ i, c.IsTurn i → ∀ p ∈ s.process? i, ¬ p.Takes s.world s.now l.key

variable {calls : List Finished} {l : Lease} {r : Renewing} {own n : Nat} {x : Course}
  {s s' : Locks} {c : Choice Process}

/-- A lease begins its timeline when it is won. -/
theorem Wins.timeline {i : Nat} (h : Wins s i l r s') (hs : Sound s) (hx : x.Fits l r) :
    Timeline s'.world.service.journal l r s.processes.length x s' 0 := by
  obtain ⟨hnow, hat, -, -, hentry⟩ := h.facts hs
  have hafter := Instant.after?_of_lt hx.duration_lt
  rw [← hat] at hentry
  exact ⟨.starting h.process? (hnow.trans hat.symm), .inl ⟨_, _, hentry, rfl, hafter, rfl⟩, by simp⟩

/-! ## The steps of others -/

theorem Reached.of_same (h : Reached l r own x s n) (hown : s'.process? own = s.process? own)
    (hnow : s'.now = s.now) (hkind : s'.world.service.store.isFaulty =
      s.world.service.store.isFaulty)
    (htokens : s.world.tokens.isCancelled r.token = true →
      s'.world.tokens.isCancelled r.token = true) : Reached l r own x s' n := by
  cases h with
  | starting hp hat => exact .starting (hown.trans hp) (hnow.trans hat)
  | waiting hp htick hle hnow' hn =>
    exact .waiting (hown.trans hp) htick (by rwa [hnow]) (by rwa [hnow]) hn
  | arriving hp hat hnext hn =>
    exact .arriving (by rw [hown, hnow, hp]) (by rwa [hnow]) hnext hn
  | inside hp hstarted hdue hnow' hle hnext hn hfaulty =>
    exact .inside (hown.trans hp) hstarted hdue (by rwa [hnow]) (by rwa [hnow]) hnext hn
      (hkind.trans hfaulty)
  | ended hp hle hend =>
    exact .ended (hown.trans hp) (by rwa [hnow]) (hend.imp (by rw [hnow]; exact id) htokens)

/-- An answer to a call of another process leaves the entry of the key alone. -/
theorem Timeline.served_entry (h : Timeline calls l r own x s n) (hs : Sound s)
    (hrule : Follows l r own x s c s') {i : Nat} {p : Process} {call : Call} {a : Answer}
    {service : Service} (hc : c.IsTurn i) (hi : i ≠ own) (hp : s.process? i = some p)
    (hcall : p.call? = some call) (hanswer : p.answer? s.world s.now = some a)
    (hserved : Service.Served s.now s.world.service call a service) :
    service.stored? l.key = s.world.service.stored? l.key ∨
      service.stored? l.key = s.world.service.live? s.now l.key := by
  by_cases hkey : l.key = call.request.key
  case neg => exact .inl (hserved.others _ hkey)
  have hentry := hserved.entry
  rw [← hkey, hs.face] at hentry
  obtain ⟨e, -, hsame⟩ | ⟨ha, hafter⟩ := hentry
  case inl => exact .inl hsame
  refine .inr (hafter.trans ?_)
  have hasks := ((hs.fit _ _ hp).asks hcall).2
  generalize call.request = request at hasks hkey ha
  cases hasks with
  | bid hbid =>
    cases hlive : s.world.service.live? s.now l.key with
    | some e => rfl
    | none =>
      rw [hlive] at ha
      exact absurd ⟨hanswer.trans (congrArg some ha), _, hbid, hkey.symm⟩ (hrule.untaken i hc p hp)
  | read => rfl
  | @release key owner e =>
    have hlive := h.entry.live? hs.face
    split at hlive
    next =>
      obtain ⟨entry, he, -, hvalue⟩ := hlive
      have howner : entry.value ≠ owner := fun howner =>
        hrule.unreleased i hc _ hp ⟨hkey.symm, (hvalue.symm.trans howner).symm⟩
      rw [he, Request.serve, if_neg howner]
    next =>
      rw [hlive]
      rfl
  | refresh => exact absurd hkey.symm (hrule.unrefreshed i hc hi _ hp)

/-- The call of another process is no refresh of the key. -/
theorem Follows.refreshCalls_eq (h : Follows l r own x s c s') (hs : Sound s) {i : Nat}
    {p : Process} {call : Call} {a : Answer} {service : Service} (hc : c.IsTurn i) (hi : i ≠ own)
    (hp : s.process? i = some p) (hcall : p.call? = some call)
    (hserved : Service.Served s.now s.world.service call a service) :
    refreshCalls l.key service.journal = refreshCalls l.key s.world.service.journal := by
  rw [hserved.journal, refreshCalls, List.filterMap_append, ← refreshCalls]
  have hasks := ((hs.fit _ _ hp).asks hcall).2
  generalize call.request = request at hasks
  cases hasks with
  | bid | read | release => simp
  | @refresh q =>
    have hkey : q.key ≠ l.key := h.unrefreshed i hc hi _ hp
    simp [hkey]

/-- A turn of another process, and the start of one, leave the renewal where it
stands. -/
theorem Timeline.other (h : Timeline calls l r own x s n) (hs : Sound s)
    (hown : IsRenewal s own r) (hstep : Step turn s c s') (hrule : Follows l r own x s c s')
    (hc : ¬ c.IsTurn own) (hnow : s'.now = s.now) : Timeline calls l r own x s' n := by
  have htokens := (hs.world_le hstep).tokens.cancelled r.token
  cases hs.doing hstep with
  | start p =>
    exact ⟨h.reached.of_same (System.process?_add_of_lt hown.lt p) rfl rfl id, h.entry, h.journal⟩
  | pass =>
    have hle := Nat.le_of_eq (congrArg Instant.nanos hnow.symm)
    exact ⟨h.reached.of_same rfl hnow rfl id, h.entry.pass hle, h.journal⟩
  | @deed i p w' next? started lease? hp hdeed =>
    have hi : i ≠ own := hc
    have hself := System.process?_advance_of_ne hown.lt hi.symm w' next? started
    obtain ⟨-, -, hkept⟩ | ⟨call, a, hcall, hanswer, hserved, -⟩ :=
      hdeed.kept_or_served (hs.fit _ _ hp)
    · refine ⟨h.reached.of_same hself rfl hkept.kind htokens,
        h.entry.of_live hs.face ?_, ?_⟩
      · have hentries := hkept.entries l.key
        rw [hs.face] at hentries
        rw [System.world_advance, Service.live?, hs.face]
        exact hentries
      · rw [System.world_advance, hkept.journal]
        exact h.journal
    · have hentry := h.served_entry hs hrule rfl hi hp hcall hanswer hserved
      have hjournal := hrule.refreshCalls_eq hs rfl hi hp hcall hserved
      exact ⟨h.reached.of_same hself rfl hserved.kind htokens, h.entry.of_live hs.face hentry,
        hjournal.trans h.journal⟩

/-- What a renewal waits for: its tick, or the end of a refresh that is under way
inside the store. -/
inductive Awaiting (l : Lease) (r : Renewing) (own : Nat) (x : Course) (s : Locks) :
    Nat → Option Instant → Prop where
  | tick {n tick} :
      s.process? own = some (.renewing r (.waiting (n + 1) (some tick))) →
      tick.nanos = l.tick (n + 1) → l.tick n ≤ s.now.nanos → s.now < tick → n ≤ x.last →
      n + 1 ≤ r.budget → s.world.tokens.isCancelled r.token = false →
      Awaiting l r own x s n (some tick)
  | landing {n next due started} :
      s.process? own = some (.renewing r (.refreshing (n + 1) (some next)
        (.single ⟨.refresh l.key l.renewalInterval, started,
          .refreshing l.key l.renewalInterval (some due) (x.fails (n + 1))⟩))) →
      started.nanos = l.tick (n + 1) → due.nanos = l.lands x (n + 1) → s.now < due →
      started ≤ s.now → next.nanos = l.tick (n + 2) → n + 1 ≤ x.last →
      s.world.service.store.isFaulty = true → Awaiting l r own x s n (some due)

theorem Reached.awaiting (h : Reached l r own x s n) {p : Process} {due? : Option Instant}
    (hp : s.process? own = some p) (hturn : turn s.now s.world p = .waits due?) :
    Awaiting l r own x s n due? := by
  cases h with
  | starting hstage =>
    rw [hstage] at hp
    cases hp
    simp only [turn, renewalTurn] at hturn
    split at hturn
    next => cases hturn
    next => cases hturn
  | waiting hstage htick hle _ hn =>
    rw [hstage] at hp
    cases hp
    obtain ⟨rfl, hlt, hbudget, huncancelled⟩ := waits_of_waiting hturn
    exact .tick hstage htick hle hlt hn hbudget huncancelled
  | arriving hstage =>
    rw [hstage] at hp
    cases hp
    rw [turn_call rfl] at hturn
    obtain ⟨a, store, hends, -⟩ | ⟨store, hmoves, -⟩ :=
      Service.callTurn_refresh_arrives s.world.service (Nat.le_refl s.now.nanos) l.key
        l.renewalInterval s.now
    · rw [hends] at hturn
      cases hturn
    · rw [hmoves] at hturn
      cases hturn
  | @inside _ next due started hstage hstarted hdue _ hle hnext hn hfaulty =>
    rw [hstage] at hp
    cases hp
    rw [turn_call rfl] at hturn
    by_cases hnow : due ≤ s.now
    · obtain ⟨a, store, hends, -⟩ := Service.callTurn_refresh_lands s.world.service hnow l.key
        l.renewalInterval started (x.fails (n + 1)) hfaulty
      rw [hends] at hturn
      cases hturn
    · rw [Service.callTurn_waits _ hnow] at hturn
      cases hturn
      exact .landing hstage hstarted hdue (Nat.lt_of_not_le hnow) hle hnext hn hfaulty
  | ended hstage =>
    rw [hstage] at hp
    cases hp

/-- A renewal goes on, or it has ended. -/
theorem Reached.goes_on_or_ended (h : Reached l r own x s n) :
    (∃ p, s.process? own = some p) ∨
      (s.process? own = none ∧ n = x.last ∧ l.tick n ≤ s.now.nanos ∧
        (l.tick r.budget ≤ s.now.nanos ∨ s.world.tokens.isCancelled r.token = true)) := by
  cases h with
  | starting hp | waiting hp | arriving hp | inside hp => exact .inl ⟨_, hp⟩
  | ended hp hle hend => exact .inr ⟨hp, rfl, hle, hend⟩

/-- While time passes a renewal waits, and time does not pass beyond what it waits
for. -/
theorem Timeline.pass {t : Instant} (h : Timeline calls l r own x s n) (hle : s.now ≤ t)
    (hrule : Follows l r own x s (.pass t) (s.passTo t)) :
    Timeline calls l r own x (s.passTo t) n := by
  refine ⟨?_, h.entry.pass hle, h.journal⟩
  obtain ⟨p, hp⟩ | ⟨hp, rfl, hle', hend⟩ := h.reached.goes_on_or_ended
  · obtain ⟨due?, hturn, hdue⟩ := WaitsUntil.exists_due (hrule.prompt p (System.mem_running hp))
    cases h.reached.awaiting hp hturn with
    | tick hp htick hle' _ hn =>
      exact .waiting hp htick (Nat.le_trans hle' hle) (hdue _ rfl) hn
    | landing hp hstarted hlands _ hle' hnext hn hfaulty =>
      exact .inside hp hstarted hlands (hdue _ rfl) (Nat.le_trans hle' hle) hnext hn hfaulty
  · exact .ended hp (Nat.le_trans hle' hle) (hend.imp_left fun hbudget => Nat.le_trans hbudget hle)

/-! ## The steps of the renewal -/

/-- From a tick the next one is an interval away. -/
theorem nextTick?_self {tick : Instant} {interval : Duration}
    (hlimit : tick.nanos + interval.nanos < 9223372036854775808000000000) :
    nextTick? tick tick interval = some ⟨tick.nanos + interval.nanos, hlimit⟩ := by
  have hone :
      Duration.ofNanos? (((tick.nanos - tick.nanos) / interval.nanos + 1) * interval.nanos) =
        some interval := by
    simp [Duration.ofNanos?, interval.nanos_lt]
  simp only [nextTick?, hone, Option.bind_some]
  exact Instant.after?_of_lt hlimit

/-- The entry and the journal when a refresh has taken effect. -/
theorem Timeline.refreshed {a : Answer} {store : Store} {started : Instant} (stage : Stage)
    (h : Timeline calls l r own x s n) (hs : Sound s) (hx : x.Fits l r) (hn : n + 1 ≤ x.last)
    (hstarted : started.nanos = l.tick (n + 1))
    (hlands : x.fails (n + 1) = false → s.now.nanos = l.lands x (n + 1))
    (hrefreshed : Service.Refreshed (s.world.service.face.read s.now)
      s.world.service.store.contents l.key l.renewalInterval (x.fails (n + 1)) a store.contents) :
    let service := ({ s.world.service with store } : Service).finish s.now
      ⟨.refresh l.key l.renewalInterval, started, stage⟩ a
    Expires service s.now l.key l.owner (l.deadline x (n + 1)) ∧
      refreshCalls l.key service.journal = refreshCalls l.key calls ++
        (List.range (n + 1)).map fun j => (l.tick (j + 1), l.renewalInterval) := by
  intro service
  constructor
  · have hlimit : x.fails (n + 1) = false →
        s.now.nanos + l.renewalInterval.nanos < 9223372036854775808000000000 := by
      intro hfails
      rw [hlands hfails]
      exact hx.lands_lt (n + 1) (Nat.le_add_left 1 n) hn
    have hstored : service.stored? l.key = store.contents.entries.find? l.key := rfl
    have hafter := h.entry.refreshed hs.face hlimit hrefreshed hstored
    rw [l.deadline_succ]
    cases hfails : x.fails (n + 1) with
    | true =>
      rw [hfails] at hafter
      simpa using hafter
    | false =>
      rw [hfails, hlands hfails] at hafter
      exact hafter
  · have hjournal : service.journal = s.world.service.journal ++
        [⟨.refresh l.key l.renewalInterval, started, s.now, a⟩] := rfl
    rw [hjournal, refreshCalls, List.filterMap_append, ← refreshCalls, h.journal,
      List.range_succ, List.map_append, List.append_assoc]
    simp [hstarted]

/-- The first tick is an interval after the acquisition. -/
theorem Timeline.turn_starting (h : Timeline calls l r own x s n) (hr : r.For l)
    (hx : x.Fits l r) {w' : World} {next? : Option Process} {started : List Process}
    {lease? : Option Lease} (hp : s.process? own = some (.renewing r .starting))
    (hnow : s.now = l.acquiredAt) (hn : n = 0)
    (hdeed : Deed s.now s.world (.renewing r .starting) w' next? started lease?) :
    Timeline calls l r own x (s.advance own w' next? started) n := by
  subst hn
  have hlimit : r.acquiredAt.nanos + r.interval.nanos < 9223372036854775808000000000 := by
    have htick := hx.tick_lt
    have hle := l.tick_le (Nat.le_add_left 1 x.last)
    rw [hr.acquiredAt, hr.interval]
    simp only [Lease.tick, Nat.one_mul] at hle htick ⊢
    omega
  have hfirst := Instant.after?_of_lt hlimit
  obtain hnone | ⟨first, hfirst', rfl, rfl, rfl⟩ := hdeed.of_starting
  · rw [hfirst] at hnone
    cases hnone
  · rw [hfirst] at hfirst'
    cases hfirst'
    refine ⟨.waiting (System.process?_advance_self (System.lt_length_of_process? hp) _ _ _) ?_ ?_ ?_
      (Nat.zero_le _), h.entry, h.journal⟩
    · simp only [Lease.tick, hr.acquiredAt, hr.interval]
      omega
    · simp only [System.now_advance, hnow, Lease.tick]
      omega
    · show s.now.nanos ≤ r.acquiredAt.nanos + r.interval.nanos
      rw [hnow, hr.acquiredAt]
      exact Nat.le_add_right _ _

/-- A renewal whose tick has come and that is not over has a refresh left. -/
theorem Follows.le_last (h : Follows l r own x s c s') (hbudget : n + 1 ≤ r.budget)
    (huncancelled : s.world.tokens.isCancelled r.token = false)
    (htick : l.tick (n + 1) ≤ s.now.nanos) : n + 1 ≤ x.last := by
  refine Nat.lt_of_not_le fun hle => ?_
  have hbelow := Nat.le_trans (l.tick_le (Nat.succ_le_succ hle)) htick
  rw [h.cancelled (Nat.lt_of_le_of_lt hle hbudget) hbelow] at huncancelled
  cases huncancelled

/-- A renewal that is over by its tick has no refresh left. -/
theorem Follows.last_le (h : Follows l r own x s c s') (hx : x.Fits l r)
    (hover : r.budget < n + 1 ∨ s.world.tokens.isCancelled r.token = true)
    (htick : s.now.nanos ≤ l.tick (n + 1)) : x.last ≤ n := by
  obtain hbudget | hcancelled := hover
  · exact Nat.le_trans hx.last_le (Nat.le_of_lt_succ hbudget)
  · refine Nat.le_of_lt_succ (Nat.lt_of_not_le fun hle => ?_)
    have hticks := Nat.le_trans htick (l.tick_le hle)
    exact absurd (h.uncancelled hcancelled) (Nat.not_lt.mpr hticks)

/-- A renewal asks for a refresh at the instant of its tick. -/
theorem Timeline.turn_tick (h : Timeline calls l r own x s n) (hs : Sound s) (hr : r.For l)
    (hx : x.Fits l r) (hp : s.process? own = some (.renewing r (.waiting (n + 1) (some s.now))))
    (htick : s.now.nanos = l.tick (n + 1)) (hn : n + 1 ≤ x.last)
    (hrule : Follows l r own x s (.turn own) s') :
    Timeline calls l r own x (s.advance own s.world (some (.renewing r (.refreshing (n + 1)
      (nextTick? s.now s.now r.interval)
      (s.world.service.errand s.now (.refresh r.key r.interval))))) []) n := by
  have hnext : s.now.nanos + r.interval.nanos = l.tick (n + 2) := by
    rw [htick, hr.interval, l.tick_succ (n + 1)]
  have hlimit : s.now.nanos + r.interval.nanos < 9223372036854775808000000000 := by
    rw [hnext]
    exact Nat.lt_of_le_of_lt (l.tick_le (Nat.succ_le_succ hn)) hx.tick_lt
  have hcall : s.world.service.errand s.now (.refresh r.key r.interval) =
      .single ⟨.refresh l.key l.renewalInterval, s.now, .approaching (some s.now)⟩ := by
    rw [Service.errand_eq_single hs.wrap, Service.call, Request.kind, (hrule.course rfl _ hp).1,
      Instant.after?_zero, hr.key, hr.interval]
  have hself := System.process?_advance_self (System.lt_length_of_process? hp)
  rw [nextTick?_self hlimit, hcall]
  exact ⟨.arriving (hself _ _ _) htick hnext hn, h.entry, h.journal⟩

/-- A renewal asks for a refresh at the instant of its tick, and it ends when all
refreshes are over. -/
theorem Timeline.turn_waiting (h : Timeline calls l r own x s n) (hs : Sound s) (hr : r.For l)
    (hx : x.Fits l r) {tick : Instant} {w' : World} {next? : Option Process}
    {started : List Process} {lease? : Option Lease}
    (hp : s.process? own = some (.renewing r (.waiting (n + 1) (some tick))))
    (htick : tick.nanos = l.tick (n + 1)) (hle : l.tick n ≤ s.now.nanos) (hnow : s.now ≤ tick)
    (hn : n ≤ x.last)
    (hdeed : Deed s.now s.world (.renewing r (.waiting (n + 1) (some tick))) w' next? started
      lease?)
    (hrule : Follows l r own x s (.turn own) s') :
    Timeline calls l r own x (s.advance own w' next? started) n := by
  obtain ⟨_, ⟨⟩, hbudget, huncancelled, hdue, rfl, rfl, rfl⟩ | ⟨hover, hretired, rfl, rfl⟩ :=
    hdeed.of_waiting
  · -- The tick has come.
    have heq : tick = s.now := Instant.ext (Nat.le_antisymm hdue hnow)
    subst heq
    exact h.turn_tick hs hr hx hp htick
      (hrule.le_last hbudget huncancelled (Nat.le_of_eq htick.symm)) hrule
  · -- All refreshes are over.
    have hbefore : s.now.nanos ≤ l.tick (n + 1) := htick ▸ hnow
    have hlast : n = x.last := Nat.le_antisymm hn (hrule.last_le hx hover hbefore)
    subst hlast
    have hself := System.process?_advance_self (System.lt_length_of_process? hp)
    refine ⟨.ended (hself _ _ _) hle (hover.imp (fun hbudget => ?_) fun hcancelled => ?_), ?_, ?_⟩
    · exact Nat.le_trans (l.tick_le (Nat.le_of_lt_succ hbudget)) hle
    · rw [System.world_advance, hretired.tokens]
      exact hcancelled
    · rw [System.world_advance, hretired.service]
      exact h.entry
    · rw [System.world_advance, hretired.service]
      exact h.journal

/-- When a refresh is over the renewal waits for the next tick. -/
theorem Timeline.turn_ends {store : Store} {a : Answer} {next started : Instant} {stage : Stage}
    {w' : World} {p : Process} (h : Timeline calls l r own x s n) (hs : Sound s) (hx : x.Fits l r)
    (hn : n + 1 ≤ x.last) (hp : s.process? own = some p)
    (hw' : w' = s.world.withService (({ s.world.service with store } : Service).finish s.now
      ⟨.refresh l.key l.renewalInterval, started, stage⟩ a))
    (hrefreshed : Service.Refreshed (s.world.service.face.read s.now)
      s.world.service.store.contents l.key l.renewalInterval (x.fails (n + 1)) a store.contents)
    (hlands : x.fails (n + 1) = false → s.now.nanos = l.lands x (n + 1))
    (hstarted : started.nanos = l.tick (n + 1)) (hle : started ≤ s.now)
    (hnext : next.nanos = l.tick (n + 2)) (hnow : s.now ≤ next) :
    Timeline calls l r own x
      (s.advance own w' (some (.renewing r (.waiting (n + 1 + 1) (some next)))) []) (n + 1) := by
  subst hw'
  obtain ⟨hentry, hjournal⟩ := h.refreshed stage hs hx hn hstarted hlands hrefreshed
  have hself := System.process?_advance_self (System.lt_length_of_process? hp)
  refine ⟨.waiting (hself _ _ _) hnext ?_ hnow hn, hentry, hjournal⟩
  rw [← hstarted]
  exact hle

/-- A refresh that arrives ends at once or goes on inside the store. -/
theorem Timeline.turn_arriving (h : Timeline calls l r own x s n) (hs : Sound s) (hx : x.Fits l r)
    {next : Instant} {w' : World} {next? : Option Process} {started : List Process}
    {lease? : Option Lease}
    (hp : s.process? own = some (.renewing r (.refreshing (n + 1) (some next)
      (.single ⟨.refresh l.key l.renewalInterval, s.now, .approaching (some s.now)⟩))))
    (hnow : s.now.nanos = l.tick (n + 1)) (hnext : next.nanos = l.tick (n + 2))
    (hn : n + 1 ≤ x.last)
    (hdeed : Deed s.now s.world (.renewing r (.refreshing (n + 1) (some next)
      (.single ⟨.refresh l.key l.renewalInterval, s.now, .approaching (some s.now)⟩)))
      w' next? started lease?)
    (hrule : Follows l r own x s (.turn own) s') :
    ∃ n', Timeline calls l r own x (s.advance own w' next? started) n' := by
  obtain ⟨hfails, hdelay⟩ := (hrule.course rfl _ hp).2 (n + 1) rfl
  have harrives := s.world.service.callTurn_refresh_arrives (Nat.le_refl s.now.nanos) l.key
    l.renewalInterval s.now
  rw [hfails] at harrives
  have hle : s.now ≤ next := by
    show s.now.nanos ≤ next.nanos
    rw [hnow, hnext]
    exact l.tick_le (Nat.le_succ (n + 1))
  obtain ⟨sv, c', _, hturn, rfl, rfl, rfl⟩ | ⟨sv, a, _, _, hturn, rfl, rfl, rfl⟩ :=
    hdeed.of_refreshing
  · -- The store takes its time.
    obtain ⟨a, store, hends, -⟩ | ⟨store, hmoves, hcontents, hfaulty, -⟩ := harrives
    · rw [hturn] at hends
      cases hends
    · rw [hturn] at hmoves
      cases hmoves
      have hlands : s.now.nanos + s.world.service.store.refreshDelay.nanos = l.lands x (n + 1) := by
        rw [hnow, hdelay, l.lands_eq]
      have hlimit : s.now.nanos + s.world.service.store.refreshDelay.nanos <
          9223372036854775808000000000 := by
        rw [hlands]
        exact Nat.lt_of_le_of_lt (Nat.le_add_right _ _) (hx.lands_lt _ (Nat.le_add_left 1 n) hn)
      rw [Instant.after?_of_lt hlimit]
      have hself := System.process?_advance_self (System.lt_length_of_process? hp)
      refine ⟨n, .inside (hself _ _ _) hnow hlands (Nat.le_add_right _ _) (Nat.le_refl _) hnext hn
        hfaulty, h.entry.of_live hs.face (.inl ?_), h.journal⟩
      simp only [System.world_advance, World.withService, Service.stored?, hcontents]
  · -- The refresh is over.
    obtain ⟨a', store, hends, hrefreshed, -, hover⟩ | ⟨store, hmoves, -⟩ := harrives
    · rw [hturn] at hends
      cases hends
      refine ⟨n + 1, h.turn_ends hs hx hn hp rfl hrefreshed (fun hfalse => ?_) hnow
        (Nat.le_refl _) hnext hle⟩
      rw [hfalse] at hover
      obtain hzero | htrue := hover
      · rw [l.lands_eq, ← hdelay, hzero, hnow]
        rfl
      · cases htrue
    · rw [hturn] at hmoves
      cases hmoves

/-- A refresh inside the store ends when its time is over. -/
theorem Timeline.turn_inside (h : Timeline calls l r own x s n) (hs : Sound s) (hx : x.Fits l r)
    {next due start : Instant} {w' : World} {next? : Option Process} {started : List Process}
    {lease? : Option Lease}
    (hp : s.process? own = some (.renewing r (.refreshing (n + 1) (some next)
      (.single ⟨.refresh l.key l.renewalInterval, start,
        .refreshing l.key l.renewalInterval (some due) (x.fails (n + 1))⟩))))
    (hstart : start.nanos = l.tick (n + 1)) (hlands : due.nanos = l.lands x (n + 1))
    (hnow : s.now ≤ due) (hle : start ≤ s.now) (hnext : next.nanos = l.tick (n + 2))
    (hn : n + 1 ≤ x.last) (hfaulty : s.world.service.store.isFaulty = true)
    (hdeed : Deed s.now s.world (.renewing r (.refreshing (n + 1) (some next)
      (.single ⟨.refresh l.key l.renewalInterval, start,
        .refreshing l.key l.renewalInterval (some due) (x.fails (n + 1))⟩)))
      w' next? started lease?) :
    ∃ n', Timeline calls l r own x (s.advance own w' next? started) n' := by
  by_cases hdue : due ≤ s.now
  · obtain ⟨a, store, hends, hrefreshed, -⟩ := s.world.service.callTurn_refresh_lands hdue l.key
      l.renewalInterval start (x.fails (n + 1)) hfaulty
    obtain ⟨sv, c', _, hturn, -⟩ | ⟨sv, a', _, _, hturn, rfl, rfl, rfl⟩ := hdeed.of_refreshing
    · rw [hturn] at hends
      cases hends
    · rw [hturn] at hends
      cases hends
      have heq : s.now.nanos = l.lands x (n + 1) := by
        rw [← hlands]
        exact Nat.le_antisymm hnow hdue
      have hbefore : s.now ≤ next := by
        show s.now.nanos ≤ next.nanos
        rw [heq, hnext, l.lands_eq, l.tick_succ (n + 1)]
        exact Nat.add_le_add_left (hx.delay_le _ (Nat.le_add_left 1 n) hn) _
      exact ⟨n + 1, h.turn_ends hs hx hn hp rfl hrefreshed (fun _ => heq) hstart hle hnext hbefore⟩
  · have hwaits := s.world.service.callTurn_waits hdue (.refresh l.key l.renewalInterval) start
      l.key l.renewalInterval (x.fails (n + 1))
    obtain ⟨sv, c', _, hturn, -⟩ | ⟨sv, a', _, _, hturn, -⟩ := hdeed.of_refreshing
    · rw [hturn] at hwaits
      cases hwaits
    · rw [hturn] at hwaits
      cases hwaits

/-- Every step keeps the timeline. -/
theorem Timeline.step (h : Timeline calls l r own x s n) (hs : Sound s) (hown : IsRenewal s own r)
    (hr : r.For l) (hx : x.Fits l r) (hstep : Step turn s c s') (hrule : Follows l r own x s c s') :
    ∃ n', Timeline calls l r own x s' n' := by
  cases hs.doing hstep with
  | start p => exact ⟨n, h.other hs hown hstep hrule id rfl⟩
  | pass hle => exact ⟨n, h.pass hle hrule⟩
  | @deed i p w' next? started lease? hp hdeed =>
    by_cases hi : i = own
    case neg => exact ⟨n, h.other hs hown hstep hrule hi rfl⟩
    subst hi
    cases h.reached with
    | starting hstage hnow =>
      rw [hstage] at hp
      cases hp
      exact ⟨0, h.turn_starting hr hx hstage hnow rfl hdeed⟩
    | waiting hstage htick hle hnow hn =>
      rw [hstage] at hp
      cases hp
      exact ⟨n, h.turn_waiting hs hr hx hstage htick hle hnow hn hdeed hrule⟩
    | arriving hstage hnow hnext hn =>
      rw [hstage] at hp
      cases hp
      exact h.turn_arriving hs hx hstage hnow hnext hn hdeed hrule
    | inside hstage hstart hlands hnow hle hnext hn hfaulty =>
      rw [hstage] at hp
      cases hp
      exact h.turn_inside hs hx hstage hstart hlands hnow hle hnext hn hfaulty hdeed
    | ended hstage =>
      rw [hstage] at hp
      cases hp

/-! ## Runs -/

/-- A lease keeps to its timeline all along a run. -/
theorem timeline_of_run {s₁ s₂ : Locks} {i : Nat} (hs : Sound s) (hwins : Wins s i l r s₁)
    (hx : x.Fits l r) (hrun : Run turn (Follows l r s.processes.length x) s₁ s₂) :
    Sound s₂ ∧ ∃ n, Timeline s₁.world.service.journal l r s.processes.length x s₂ n := by
  obtain ⟨-, -, hr, -, -⟩ := hwins.facts hs
  refine hwins.preserves
    (I := fun t => ∃ n, Timeline s₁.world.service.journal l r s.processes.length x t n) hs
    (fun hrule => hrule.admitted) (fun ht hown ⟨n, h⟩ hstep hrule => ?_) ?_ hrun
  · exact h.step ht hown hr hx hstep hrule
  · exact ⟨0, hwins.timeline hs hx⟩

/-- Up to the next refresh, or after the last one. -/
theorem Reached.before_next (h : Reached l r own x s n) :
    n ≤ x.last ∧ l.acquiredAt.nanos ≤ s.now.nanos ∧
      (n = x.last ∨ s.now.nanos ≤ l.lands x (n + 1)) := by
  have hat : ∀ m, l.acquiredAt.nanos ≤ l.tick m := fun m => Nat.le_add_right _ _
  cases h with
  | starting _ hnow =>
    rw [hnow]
    exact ⟨Nat.zero_le _, Nat.le_refl _, .inr (Nat.le_add_right _ _)⟩
  | @waiting _ tick _ htick hle hnow hn =>
    refine ⟨hn, Nat.le_trans (hat n) hle, .inr ?_⟩
    rw [l.lands_eq, ← htick]
    exact Nat.le_trans hnow (Nat.le_add_right _ _)
  | arriving _ hnow _ hn =>
    rw [hnow, l.lands_eq]
    exact ⟨Nat.le_of_succ_le hn, hat _, .inr (Nat.le_add_right _ _)⟩
  | @inside _ _ due started _ hstarted hdue hnow hle _ hn _ =>
    refine ⟨Nat.le_of_succ_le hn, Nat.le_trans ?_ hle, .inr ?_⟩
    · rw [hstarted]
      exact hat _
    · rw [← hdue]
      exact hnow
  | ended _ hle => exact ⟨Nat.le_refl _, Nat.le_trans (hat _) hle, .inl rfl⟩

/-- The key has the token of the owner up to the deadline that the last refresh
leaves, and none after it. -/
theorem Timeline.value? (h : Timeline calls l r own x s n) (hs : Sound s) (hr : r.For l)
    (hx : x.Fits l r) :
    s.world.service.value? s.now l.key =
      if s.now.nanos ≤ l.deadline x x.last then some l.owner else none := by
  obtain ⟨hn, hat, hnext⟩ := h.reached.before_next
  obtain ⟨since, hsince⟩ := Nat.exists_eq_add_of_le hat
  have hle : since ≤ expiry l.duration.nanos l.renewalInterval.nanos x.delay x.fails n ↔
      since ≤ expiry l.duration.nanos l.renewalInterval.nanos x.delay x.fails x.last := by
    refine le_expiry_iff hr.duration_le hx.delay_le hn (hnext.imp_right fun hlands => ?_)
    rw [hsince, Lease.lands] at hlands
    exact Nat.le_of_add_le_add_left hlands
  have hdeadline : s.now.nanos ≤ l.deadline x n ↔ s.now.nanos ≤ l.deadline x x.last := by
    rw [hsince, Lease.deadline, Lease.deadline, Nat.add_le_add_iff_left, Nat.add_le_add_iff_left]
    exact hle
  simp only [h.entry.value? hs.face, hdeadline]

end Leasehold.Lock
