import Leasehold.Proofs.Redis.Server
import Leasehold.Proofs.Store.Ledger

/-!
# A store on a Redis server and a store in memory

The two are in step, `InStep`, if they have the same live keys, with the same
values and the same ends.  A server counts milliseconds and a store in memory
nanoseconds, so they stay in step only while all times are whole milliseconds.

For each request there is a lemma about the dialogue with a server that is as
documented: what comes of it, and which records it leaves live.  A request then
has the same answer from both stores and keeps them in step, and so does time.
So the answers to any sequence of requests are the same (`answers_eq`).
-/

namespace Leasehold

/-- The time to live that a request names. -/
def Request.ttl? : Request → Option Duration
  | .set _ _ ttl | .refresh _ ttl => some ttl
  | .get _ | .delete _ | .deleteIfEquals _ _ => none

/-- The whole milliseconds of a reading. -/
def Instant.millis (t : Instant) : Nat := t.nanos / 1000000

/-- The answers to the requests of a sequence, each made at its own reading of the clock. -/
def answers {σ α : Type} (ask : σ → Instant → Request → α × σ) :
    σ → List (Instant × Request) → List α
  | _, [] => []
  | s, (now, r) :: calls => (ask s now r).1 :: answers ask (ask s now r).2 calls

/-- A request leaves a live entry, or none. -/
theorem Request.liveAt_of_serve {now : Instant} {r : Request} {e? : Option Entry} {e : Entry}
    (hlive : ∀ e, e? = some e → e.liveAt now = true) (he : (r.serve now e?).2 = some e) :
    e.liveAt now = true := by
  have hafter : ∀ v ttl, Entry.liveAt ⟨v, now.after? ttl⟩ now = true := fun v ttl =>
    Entry.liveAt_iff.mpr fun t ht => Instant.le_of_after?_eq_some ht
  cases r with
  | set k v ttl =>
    cases e? with
    | none => cases he; exact hafter v ttl
    | some e₀ => cases he; exact hlive _ rfl
  | get k => exact hlive _ he
  | delete k => cases he
  | refresh k ttl =>
    cases e? with
    | none => cases he
    | some e₀ => cases he; exact hafter e₀.value ttl
  | deleteIfEquals k v =>
    cases e? with
    | none => cases he
    | some e₀ =>
      simp only [Request.serve] at he
      split at he
      · cases he
      · cases he; exact hlive _ rfl

/-- After a request the live entry of its key is what it made of the one before. -/
theorem Memory.live?_answer_key (m : Memory) (now : Instant) (r : Request) :
    (m.answer now r).2.live? now r.key = (r.serve now (m.live? now r.key)).2 := by
  rw [live?_answer, if_pos rfl]
  cases hleft : (r.serve now (m.live? now r.key)).2 with
  | none => rfl
  | some e =>
    rw [Option.filter_some, if_pos]
    exact Request.liveAt_of_serve (fun e he => (live?_eq_some.mp he).2) hleft

namespace Redis

/-! ## Calls on a server -/

/-- What the caller of a store on a server gets where a store in memory gives an answer. -/
def outcomeOf : Answer → Outcome Answer
  | .failed e => .error (.store e)
  | a => .ok a

namespace Server

variable {σ : Type} {srv : Server σ} {s : σ} {now : Instant} {k v : String} {ttl : Duration}

/-- Holds the dialogue of a request. -/
def serve (srv : Server σ) (s : σ) (now : Instant) (r : Request) : Outcome Answer × σ :=
  let (outcome, _, s) := (dialogue r).hold (srv.reply now.millis) s
  (outcome, s)

/-- A time to live that a server takes as it is. -/
def Countable (now : Instant) (ttl : Duration) : Prop :=
  1 ≤ ttl.millis ∧ now.millis + ttl.millis < 2 ^ 63

instance (now : Instant) (ttl : Duration) : Decidable (Countable now ttl) :=
  inferInstanceAs (Decidable (_ ∧ _))

theorem ttlMillis_eq (h : Countable now ttl) : ttlMillis ttl = ttl.millis := by
  obtain ⟨hpos, hlt⟩ := h
  simp only [ttlMillis, Nat.pow_eq]
  omega

/-- What comes of a request on a server, and what it leaves of the live record of
its key.  The other live records stay. -/
def Gives (srv : Server σ) (s : σ) (now : Instant) (r : Request) (outcome : Outcome Answer)
    (left? : Option Record) : Prop :=
  (srv.serve s now r).1 = outcome ∧
    srv.live? now.millis (srv.serve s now r).2 =
      Function.update (srv.live? now.millis s) r.key left?

namespace Documented

theorem serve_set (h : srv.Documented) (httl : Countable now ttl) :
    let live? := srv.live? now.millis s k
    srv.Gives s now (.set k v ttl) (.ok (if live?.isSome then .occupied else .acquired))
      (some (live?.getD ⟨v, now.millis + ttl.millis⟩)) := by
  simp only [Gives, serve, dialogue, ttlMillis_eq httl, once, Dialogue.hold, Request.key]
  cases hlive : srv.live? now.millis s k with
  | none =>
    obtain ⟨hreply, hafter⟩ := h.set_free _ _ _ v _ httl.1 httl.2 hlive
    rw [hreply, hafter]
    exact ⟨rfl, rfl⟩
  | some r =>
    obtain ⟨hreply, hafter⟩ := h.set_taken _ _ _ v _ httl.1 httl.2 (by rw [hlive]; rfl)
    rw [hreply, hafter, Option.getD_some, ← hlive, Function.update_eq_self]
    exact ⟨by rw [hlive]; rfl, rfl⟩

theorem serve_get (h : srv.Documented) :
    let live? := srv.live? now.millis s k
    srv.Gives s now (.get k) (.ok (.value (live?.map (·.value)))) live? := by
  obtain ⟨hreply, hafter⟩ := h.get now.millis s k
  simp only [Gives, serve, dialogue, once, Dialogue.hold, Request.key, hreply, hafter,
    Function.update_eq_self, and_true]
  cases srv.live? now.millis s k <;> rfl

theorem serve_delete (h : srv.Documented) : srv.Gives s now (.delete k) (.ok .done) none := by
  obtain ⟨hreply, hafter⟩ := h.del now.millis s k
  simp only [Gives, serve, dialogue, once, Dialogue.hold, Request.key, hreply, hafter, and_true]
  rfl

theorem serve_refresh (h : srv.Documented) (httl : Countable now ttl) :
    let live? := srv.live? now.millis s k
    srv.Gives s now (.refresh k ttl)
      (if live?.isSome then .ok .done else .error (.store (.notFound k)))
      (live?.map fun r => { r with expiry := now.millis + ttl.millis }) := by
  obtain ⟨hreply, hafter⟩ := h.pexpire _ s k _ httl.1 httl.2
  simp only [Gives, serve, dialogue, ttlMillis_eq httl, once, Dialogue.hold, Request.key, hreply,
    hafter, and_true]
  cases srv.live? now.millis s k <;> rfl

/-- A server that does not know the script runs it once it was loaded. -/
theorem serve_deleteIfEquals (h : srv.Documented) :
    let live? := srv.live? now.millis s k
    let holds := live?.map (·.value) = some v
    srv.Gives s now (.deleteIfEquals k v) (.ok (.removed (decide holds)))
      (if holds then none else live?) := by
  have hremoved : ∀ (p : Prop) [Decidable p],
      removedAnswer (if p then 1 else 0) = .removed (decide p) := by
    intro p _
    by_cases hp : p <;> simp [removedAnswer, hp]
  cases hknows : srv.knowsScript s with
  | true =>
    obtain ⟨hnumber, hafter⟩ := h.compareAndDelete now.millis s k v
    rw [← h.evalsha _ _ k v hknows] at hnumber hafter
    simp only [Gives, serve, dialogue, Dialogue.hold, hnumber, Reply.unknownScript,
      Bool.false_eq_true, if_false, Reply.toNumber, Except.map, hremoved]
    exact ⟨trivial, hafter⟩
  | false =>
    obtain ⟨line, hcode, hreply, hkept⟩ := h.noscript now.millis s k v hknows
    have hunknown : (Reply.error line).unknownScript = true := by
      rw [Reply.unknownScript, hcode, beq_self_eq_true]
    obtain ⟨hloaded, digest, hdigest, hkept'⟩ :=
      h.load now.millis (srv.reply now.millis s (runScript k v)).2
    obtain ⟨hnumber, hafter⟩ := h.compareAndDelete now.millis
      (srv.reply now.millis (srv.reply now.millis s (runScript k v)).2 loadScript).2 k v
    rw [← h.evalsha _ _ k v hloaded, hkept', hkept] at hnumber hafter
    simp only [Gives, serve, dialogue, once, Dialogue.hold, hreply, hunknown, if_true, hdigest,
      Reply.accepted, hnumber, Reply.toNumber, Except.map, hremoved]
    exact ⟨trivial, hafter⟩

end Documented

end Server

/-! ## Stores in step -/

/-- An entry and a record have the same value and the same end. -/
def Matches (e : Entry) (r : Record) : Prop :=
  e.value = r.value ∧ ∃ t, e.deadline? = some t ∧ t.nanos = r.expiry * 1000000

/-- A store in memory and a server have the same live keys, with values and ends. -/
def InStep {σ : Type} (srv : Server σ) (now : Instant) (m : Memory) (s : σ) : Prop :=
  ∀ k, Option.Rel Matches (m.live? now k) (srv.live? now.millis s k)

/-- A request whose times are whole milliseconds that a server counts. -/
structure Timely (now : Instant) (r : Request) : Prop where
  /-- The instant of the request is whole. -/
  whole : 1000000 ∣ now.nanos
  /-- So is the time to live that it names. -/
  ttl : ∀ ttl ∈ r.ttl?, 1000000 ∣ ttl.nanos ∧ Server.Countable now ttl

instance (now : Instant) (r : Request) : Decidable (Timely now r) :=
  decidable_of_iff (1000000 ∣ now.nanos ∧
      ∀ ttl ∈ r.ttl?, 1000000 ∣ ttl.nanos ∧ Server.Countable now ttl)
    ⟨fun h => ⟨h.1, h.2⟩, fun h => ⟨h.whole, h.ttl⟩⟩

theorem Matches.liveAt_eq {e : Entry} {r : Record} (h : Matches e r) {now : Instant}
    (hwhole : 1000000 ∣ now.nanos) : e.liveAt now = decide (now.millis ≤ r.expiry) := by
  obtain ⟨-, t, ht, hend⟩ := h
  rw [Bool.eq_iff_iff, Entry.liveAt_iff, decide_eq_true_iff, Instant.millis]
  constructor
  · intro hlive
    have := hlive t ht
    omega
  · rintro hle t' ht'
    obtain rfl : t = t' := Option.some.inj (ht.symm.trans ht')
    omega

/-- A deadline that is counted from a whole millisecond. -/
theorem matches_after {now : Instant} {ttl : Duration} (v : String)
    (hwhole : 1000000 ∣ now.nanos) (httl : 1000000 ∣ ttl.nanos)
    (hcountable : Server.Countable now ttl) :
    Matches ⟨v, now.after? ttl⟩ ⟨v, now.millis + ttl.millis⟩ := by
  obtain ⟨-, hlt⟩ := hcountable
  simp only [Instant.millis, Duration.millis] at hlt ⊢
  have hafter : now.nanos + ttl.nanos < 9223372036854775808000000000 := by omega
  refine ⟨rfl, _, Instant.after?_of_lt hafter, ?_⟩
  show now.nanos + ttl.nanos = (now.nanos / 1000000 + ttl.nanos / 1000000) * 1000000
  omega

namespace InStep

variable {σ : Type} {srv : Server σ} {now : Instant} {m : Memory} {s : σ}

theorem absent_or_present (h : InStep srv now m s) (k : String) :
    (m.live? now k = none ∧ srv.live? now.millis s k = none) ∨
      ∃ e r, m.live? now k = some e ∧ srv.live? now.millis s k = some r ∧ Matches e r := by
  have hkey := h k
  revert hkey
  generalize m.live? now k = e?, srv.live? now.millis s k = r?
  rintro (hmatches | _)
  · exact .inr ⟨_, _, rfl, rfl, hmatches⟩
  · exact .inl ⟨rfl, rfl⟩

theorem later {later : Instant} (h : InStep srv now m s) (hle : now ≤ later)
    (hwhole : 1000000 ∣ later.nanos) : InStep srv later m s := by
  intro k
  have hmillis : now.millis ≤ later.millis := Nat.div_le_div_right hle
  rw [m.live?_later hle, Server.live?_later hmillis]
  obtain ⟨he, hr⟩ | ⟨e, r, he, hr, hmatches⟩ := h.absent_or_present k
  · rw [he, hr]
    exact .none
  · rw [he, hr, Option.filter_some, Option.filter_some, hmatches.liveAt_eq hwhole]
    split
    · exact .some hmatches
    · exact .none

/-- A request that leaves matching entries of its key keeps the stores in step. -/
theorem update (h : InStep srv now m s) {r : Request} {outcome : Outcome Answer}
    {left? : Option Record} (hgives : srv.Gives s now r outcome left?)
    (hleft : Option.Rel Matches (r.serve now (m.live? now r.key)).2 left?) :
    InStep srv now (m.answer now r).2 (srv.serve s now r).2 := by
  intro j
  rw [hgives.2]
  by_cases hj : j = r.key
  · subst hj
    rw [m.live?_answer_key, Function.update_self]
    exact hleft
  · rw [m.live?_answer, if_neg hj, Function.update_of_ne hj]
    exact h j

/-- A request has the same answer from both stores and keeps them in step. -/
theorem serve (h : InStep srv now m s) (hsrv : srv.Documented) {r : Request} (hr : Timely now r) :
    (srv.serve s now r).1 = outcomeOf (m.answer now r).1 ∧
      InStep srv now (m.answer now r).2 (srv.serve s now r).2 := by
  suffices hsuffices : ∃ outcome left?, srv.Gives s now r outcome left? ∧
      outcome = outcomeOf (r.serve now (m.live? now r.key)).1 ∧
      Option.Rel Matches (r.serve now (m.live? now r.key)).2 left? by
    obtain ⟨_, left?, hgives, rfl, hleft⟩ := hsuffices
    exact ⟨by rw [hgives.1, m.answer_eq_serve], h.update hgives hleft⟩
  cases r with
  | set k v ttl =>
    obtain ⟨httl, hcountable⟩ := hr.ttl ttl rfl
    refine ⟨_, _, hsrv.serve_set hcountable, ?_⟩
    obtain ⟨he, hr'⟩ | ⟨e, r, he, hr', hmatches⟩ := h.absent_or_present k
    · rw [hr', Request.key, he]
      exact ⟨rfl, .some (matches_after v hr.whole httl hcountable)⟩
    · rw [hr', Request.key, he]
      exact ⟨rfl, .some hmatches⟩
  | get k =>
    refine ⟨_, _, hsrv.serve_get, ?_, h k⟩
    obtain ⟨he, hr'⟩ | ⟨e, r, he, hr', hmatches⟩ := h.absent_or_present k
    · rw [hr', Request.key, he]
      rfl
    · rw [hr', Request.key, he, Option.map_some, ← hmatches.1]
      rfl
  | delete k => exact ⟨_, _, hsrv.serve_delete, rfl, .none⟩
  | refresh k ttl =>
    obtain ⟨httl, hcountable⟩ := hr.ttl ttl rfl
    refine ⟨_, _, hsrv.serve_refresh hcountable, ?_⟩
    obtain ⟨he, hr'⟩ | ⟨e, r, he, hr', hmatches⟩ := h.absent_or_present k
    · rw [hr', Request.key, he]
      exact ⟨rfl, .none⟩
    · rw [hr', Request.key, he]
      have hafter := matches_after r.value hr.whole httl hcountable
      exact ⟨rfl, .some ⟨hmatches.1, hafter.2⟩⟩
  | deleteIfEquals k v =>
    refine ⟨_, _, hsrv.serve_deleteIfEquals, ?_⟩
    obtain ⟨he, hr'⟩ | ⟨e, r, he, hr', hmatches⟩ := h.absent_or_present k
    · rw [hr', Request.key, he]
      exact ⟨rfl, .none⟩
    · rw [hr', Request.key, he, Option.map_some, ← hmatches.1]
      by_cases hv : e.value = v
      · simp [Request.serve, hv, outcomeOf]
      · simp [Request.serve, hv, outcomeOf, hmatches]

/-- The answers to a sequence of requests are the same from two stores in step. -/
theorem answers_eq (h : InStep srv now m s) (hsrv : srv.Documented)
    {calls : List (Instant × Request)} (hordered : calls.Pairwise fun c c' => c.1 ≤ c'.1)
    (hnow : ∀ c ∈ calls, now ≤ c.1) (htimely : ∀ c ∈ calls, Timely c.1 c.2) :
    answers srv.serve s calls = (answers Memory.answer m calls).map outcomeOf := by
  induction calls generalizing now m s with
  | nil => rfl
  | cons c calls ih =>
    obtain ⟨t, r⟩ := c
    obtain ⟨hlater, hordered⟩ := List.pairwise_cons.mp hordered
    obtain ⟨hr, htimely⟩ := List.forall_mem_cons.mp htimely
    obtain ⟨houtcome, hstep⟩ := (h.later (hnow _ List.mem_cons_self) hr.whole).serve hsrv hr
    rw [answers, answers, List.map_cons, houtcome, ih hstep hordered hlater htimely]

end InStep

/-- A store on a server that does as it is documented gives the answers of a store
in memory, to any sequence of requests whose times are whole milliseconds, once the
two have the same live keys; they do if they have none.  Either reports a refresh
of a key without a live entry. -/
theorem answers_agree {σ : Type} {srv : Server σ} (hsrv : srv.Documented) {now : Instant}
    {m : Memory} {s : σ} (hstep : InStep srv now m s) {calls : List (Instant × Request)}
    (hordered : calls.Pairwise fun c c' => c.1 ≤ c'.1) (hnow : ∀ c ∈ calls, now ≤ c.1)
    (htimely : ∀ c ∈ calls, Timely c.1 c.2) :
    answers srv.serve s calls = (answers Memory.answer m calls).map outcomeOf ∧
      (∀ s₀ t, (∀ k, srv.record? s₀ k = none) → InStep srv t {} s₀) ∧
      ∀ s t k ttl, Server.Countable t ttl →
        ((srv.serve s t (.refresh k ttl)).1 = .error (.store (.notFound k)) ↔
          srv.live? t.millis s k = none) := by
  refine ⟨hstep.answers_eq hsrv hordered hnow htimely, fun s₀ t hempty k => ?_,
    fun s t k ttl httl => ?_⟩
  · rw [Server.live?, hempty k]
    exact .none
  · rw [(hsrv.serve_refresh httl).1]
    cases srv.live? t.millis s k <;> simp

/-- A record at its last millisecond and one later, with an empty value, and a
script that has to be loaded. -/
theorem answers_agree_at_expiry :
    let last : Instant := { nanos := 4000000000 }
    let after : Instant := { nanos := 4001000000 }
    let calls : List (Instant × Request) :=
      [(.epoch, .refresh "a" (.ofSeconds 4)), (.epoch, .set "a" "" (.ofSeconds 4)),
        (last, .get "a"), (last, .set "a" "y" (.ofSeconds 4)), (last, .deleteIfEquals "a" "y"),
        (after, .refresh "a" (.ofSeconds 4)), (after, .set "a" "z" (.ofSeconds 4)),
        (after, .deleteIfEquals "a" "z"), (after, .delete "a")]
    (calls.Pairwise fun c c' => c.1 ≤ c'.1) ∧ (∀ c ∈ calls, Timely c.1 c.2) ∧
      answers Vault.server.serve {} calls = (answers Memory.answer {} calls).map outcomeOf ∧
      answers Memory.answer {} calls =
        [.failed (.notFound "a"), .acquired, .value (some ""), .occupied, .removed false,
          .failed (.notFound "a"), .acquired, .removed true, .done] := by
  intro last after calls
  have hstep : InStep Vault.server .epoch {} {} := fun k => .none
  exact ⟨by decide, by decide, (answers_agree Vault.documented hstep (by decide)
    (fun c _ => Nat.zero_le c.1.nanos) (by decide)).1, by decide⟩

end Redis

end Leasehold
