import Leasehold.Proofs.Lock.Runs
import Leasehold.Proofs.Redis.Agreement

/-!
# Leases that can be sent to a server

A server reads the expiry of a key as a signed word of 64 bits, and refuses one that is not
positive.  A time to live is sent in whole milliseconds, at least one and at most those
that fit an unsigned word, so one that is too long is sent as a number that no server reads.

The times to live that lock managers ask for are those of accepted leases and of their
renewals (`asked_of_run`).  They grow with the lease, and they can be sent for leases of up
to 9223372036854775 seconds, and those of the renewals for twice as much
(`sendable_ofSeconds_iff`).  A trace of the request shows the number that is sent
(`ttlField_of_fits`), unless that is too long for a word.
-/

namespace Leasehold

open Simulation

variable {lease ttl ttl' d : Duration} {n : Nat}

namespace Lock

/-! ## Accepted leases -/

theorem IsWritten.wholeSeconds? {interval : Duration} (h : IsWritten ttl interval n) :
    Lock.wholeSeconds? ttl = some ttl ∧ interval = renewalInterval ttl := by
  rw [h.interval, h.duration]
  refine ⟨wholeSeconds?_ofSeconds h.pos h.le, ?_⟩
  rw [renewalInterval, leaseSeconds_ofSeconds h.le]

/-- A time to live that is asked for: an accepted lease, or the time between two renewals
of one. -/
inductive Asked : Duration → Prop where
  | lease {lease ttl : Duration} : wholeSeconds? lease = some ttl → Asked ttl
  | renewal {lease ttl : Duration} :
      wholeSeconds? lease = some ttl → Asked (renewalInterval ttl)

/-- Nobody asks for less than a second. -/
theorem Asked.one_le_seconds (h : Asked d) : 1 ≤ d.seconds := by
  have hwritten : ∃ n, 1 ≤ n ∧ n ≤ maxSeconds ∧ d = .ofSeconds n := by
    cases h with
    | lease haccepted =>
      have h := isWritten_of_wholeSeconds? haccepted
      exact ⟨_, h.pos, h.le, h.duration⟩
    | renewal haccepted =>
      have h := isWritten_of_wholeSeconds? haccepted
      have hpos := h.pos
      have hle := h.le
      exact ⟨_, by omega, by omega, h.interval⟩
  obtain ⟨n, hpos, hle, rfl⟩ := hwritten
  rw [Duration.seconds, Duration.nanos_ofSeconds hle]
  omega

/-- A process asks for nothing else. -/
theorem Process.Fit.asked {w : World} {now : Instant} {p : Process} {c : Call} (hp : p.Fit w now)
    (hc : p.call? = some c) (hd : c.request.ttl? = some d) : Asked d := by
  cases Process.awaits hc with
  | asking | trying =>
    obtain ⟨⟨-, n, hwritten⟩, _, ⟨⟩, -, hrequest⟩ := hp
    rw [hrequest] at hd
    cases hd
    exact .lease hwritten.wholeSeconds?.1
  | refreshing =>
    obtain ⟨⟨-, -, -, ttl, n, hwritten⟩, -, -, _, ⟨⟩, -, hrequest⟩ := hp
    rw [hrequest] at hd
    cases hd
    obtain ⟨haccepted, hinterval⟩ := hwritten.wholeSeconds?
    rw [hinterval]
    exact .renewal haccepted
  | releasing =>
    obtain ⟨_, ⟨⟩, -, hrequest⟩ := hp
    rw [hrequest] at hd
    cases hd
  | reading =>
    obtain ⟨_, _, ⟨⟩, -, hrequest⟩ := hp
    rw [hrequest] at hd
    cases hd

/-- Along a run, lock managers ask for nothing else. -/
theorem asked_of_run {s s' : Locks} {i : Nat} {p : Process} {c : Call} (h : Fresh s)
    (hrun : Run turn Admitted s s') (hp : s'.process? i = some p) (hc : p.call? = some c)
    (hd : c.request.ttl? = some d) : Asked d :=
  ((h.sound.run id hrun).fit i p hp).asked hc hd

end Lock

namespace Redis

/-! ## Expiries -/

/-- The greatest expiry that a server reads. -/
def maxExpiry : Nat := 2 ^ 63 - 1

/-- A server can read the expiry that is sent for a time to live. -/
def Sendable (ttl : Duration) : Prop := 1 ≤ ttlMillis ttl ∧ ttlMillis ttl ≤ maxExpiry

instance (ttl : Duration) : Decidable (Sendable ttl) := inferInstanceAs (Decidable (_ ∧ _))

/-- The expiry that a command names, in milliseconds. -/
def expiry? : Command → Option Nat
  | ["SET", _, _, "NX", "PX", ms] => natural? ms.toList
  | ["PEXPIRE", _, ms] => natural? ms.toList
  | _ => none

/-- A request with a time to live is one command, which names its expiry. -/
theorem commands_of_ttl? {r : Request} (h : r.ttl? = some d) {σ : Type}
    (reply : σ → Command → Reply × σ) (server : σ) :
    ∃ c, ((dialogue r).hold reply server).2.1 = [c] ∧ expiry? c = some (ttlMillis d) := by
  cases r with
  | set | refresh =>
    cases h
    exact ⟨_, rfl, Vault.natural?_toString _⟩
  | get | delete | deleteIfEquals => cases h

/-- A trace shows the expiry that is sent, if it fits a word. -/
theorem ttlField_of_fits (hpos : 1 ≤ d.seconds) (hfits : d.millis < UInt64.size) :
    Request.ttlField d = ("ttl_ms", .number (ttlMillis d)) := by
  have hword : Nat.pow 2 64 = UInt64.size := by decide
  have hmillis : 1 ≤ d.millis := by
    simp only [Duration.seconds, Duration.millis] at hpos ⊢
    omega
  rw [Request.ttlField, ttlMillis, hword, Nat.mod_eq_of_lt hfits,
    Nat.min_eq_left (Nat.le_sub_one_of_lt hfits), Nat.max_eq_right hmillis]

theorem ttlField_mem_span {r : Request} (h : r.ttl? = some d) :
    Request.ttlField d ∈ r.span.fields := by
  cases r with
  | set | refresh =>
    cases h
    exact .tail _ (.head _)
  | get | delete | deleteIfEquals => cases h

/-- Longer times to live have later expiries. -/
theorem ttlMillis_mono (h : ttl ≤ ttl') : ttlMillis ttl ≤ ttlMillis ttl' := by
  have hmillis : ttl.millis ≤ ttl'.millis := Nat.div_le_div_right h
  simp only [ttlMillis]
  omega

theorem ttlMillis_pos (ttl : Duration) : 1 ≤ ttlMillis ttl := Nat.le_max_left _ _

/-- Whole seconds can be sent up to those whose milliseconds fit a signed word. -/
theorem sendable_ofSeconds_iff (h : n ≤ Lock.maxSeconds) :
    Sendable (.ofSeconds n) ↔ n ≤ 9223372036854775 := by
  have hmillis : (Duration.ofSeconds n).millis = n * 1000 := by
    rw [Duration.millis, Duration.nanos_ofSeconds h]
    omega
  rw [Sendable, ttlMillis, hmillis, Nat.pow_eq, maxExpiry]
  omega

/-! ## What is sent for a lease -/

/-- **Which leases can be sent.**

The expiries that are sent for an accepted lease and for its renewals are positive, and
they grow with the lease.  A server can read that of the lease exactly up to
9223372036854775 seconds, and that of the renewals exactly up to 18446744073709550 seconds.

Along every run, what lock managers ask for with a time to live is an accepted lease or one
of its renewals, and goes to the server as one command with that expiry.  A trace of the
request shows the same number, if its milliseconds fit a word. -/
theorem sendable_iff_le (h : Lock.wholeSeconds? lease = some ttl) :
    (1 ≤ ttlMillis ttl ∧ 1 ≤ ttlMillis (Lock.renewalInterval ttl)) ∧
    (Sendable ttl ↔ lease ≤ .ofSeconds 9223372036854775) ∧
    (Sendable (Lock.renewalInterval ttl) ↔ lease ≤ .ofSeconds 18446744073709550) ∧
    (∀ lease' ttl', Lock.wholeSeconds? lease' = some ttl' → lease ≤ lease' →
      ttlMillis ttl ≤ ttlMillis ttl' ∧
        ttlMillis (Lock.renewalInterval ttl) ≤ ttlMillis (Lock.renewalInterval ttl')) ∧
    ∀ s s' i p c d, Lock.Fresh s → Run Lock.turn Lock.Admitted s s' → s'.process? i = some p →
      p.call? = some c → c.request.ttl? = some d → Lock.Asked d ∧
        (d.millis < UInt64.size → ("ttl_ms", .number (ttlMillis d)) ∈ c.request.span.fields) ∧
        ∀ {σ : Type} (reply : σ → Command → Reply × σ) (server : σ),
          ∃ command, ((dialogue c.request).hold reply server).2.1 = [command] ∧
            expiry? command = some (ttlMillis d) := by
  have hwritten := Lock.isWritten_of_wholeSeconds? h
  have hle := hwritten.le
  refine ⟨⟨ttlMillis_pos _, ttlMillis_pos _⟩, ?_, ?_, fun lease' ttl' h' hlease => ?_, ?_⟩
  · rw [hwritten.duration, sendable_ofSeconds_iff hle]
    exact Lock.leaseSeconds_le_iff (by decide)
  · have hhalf : (Lock.leaseSeconds lease + 1) / 2 ≤ Lock.maxSeconds := by omega
    rw [hwritten.interval, sendable_ofSeconds_iff hhalf, ← Lock.leaseSeconds_le_iff (by decide)]
    omega
  · have hwritten' := Lock.isWritten_of_wholeSeconds? h'
    have hseconds := Lock.leaseSeconds_mono hlease
    constructor
    · refine ttlMillis_mono ?_
      show ttl.nanos ≤ ttl'.nanos
      rw [hwritten.nanos_duration, hwritten'.nanos_duration]
      exact Nat.mul_le_mul_right _ hseconds
    · refine ttlMillis_mono ?_
      show (Lock.renewalInterval ttl).nanos ≤ (Lock.renewalInterval ttl').nanos
      rw [hwritten.nanos_interval, hwritten'.nanos_interval]
      omega
  · intro s s' i p c d hfresh hrun hp hc hd
    have hasked := Lock.asked_of_run hfresh hrun hp hc hd
    refine ⟨hasked, fun hfits => ?_, commands_of_ttl? hd⟩
    rw [← ttlField_of_fits hasked.one_le_seconds hfits]
    exact ttlField_mem_span hd

/-- The shortest lease in whole seconds that cannot be sent. -/
def unsendable : Duration := .ofSeconds 9223372036854776

/-- Somebody tries to acquire a lock for so long, and waits for the answer. -/
def trial : List (Choice Lock.Process) :=
  [.start (.action (.tryAcquire 0 "k" "a" unsendable "c")), .turn 0]

theorem sendable_iff_le_longest :
    (¬Sendable (.ofSeconds Lock.maxSeconds) ∧ Sendable (.ofSeconds 10) ∧
      ttlMillis (.ofSeconds 10) ≤ ttlMillis (.ofSeconds Lock.maxSeconds)) ∧
    (Lock.wholeSeconds? unsendable = some unsendable ∧ ¬Sendable unsendable) ∧
    ∃ s p c, Run Lock.turn Lock.Admitted Lock.single s ∧ s.process? 0 = some p ∧
      p.call? = some c ∧ c.request = .set "k" "a" unsendable ∧ Lock.Asked unsendable ∧
      ("ttl_ms", .number 9223372036854776000) ∈ c.request.span.fields ∧
      ∃ command, ((dialogue c.request).hold scriptedReply []).2.1 = [command] ∧
        expiry? command = some 9223372036854776000 := by
  have hlongest : Lock.wholeSeconds? .longest = some (.ofSeconds Lock.maxSeconds) := by decide
  have hten : Lock.wholeSeconds? (.ofSeconds 10) = some (.ofSeconds 10) := by decide
  have htoo : Lock.wholeSeconds? unsendable = some unsendable := by decide
  obtain ⟨-, hlong, -⟩ := sendable_iff_le hlongest
  obtain ⟨-, hshort, -, hgrows, -⟩ := sendable_iff_le hten
  obtain ⟨-, hnot, -, -, hruns⟩ := sendable_iff_le htoo
  have hfollow : (Lock.single.follow? Lock.turn Lock.Admitted trial).any (fun s =>
      ((s.process? 0).bind (·.call?)).any fun c =>
        decide (c.request = .set "k" "a" unsendable)) = true := by
    decide +kernel
  obtain ⟨s, hs, hcall⟩ := (Option.any_eq_true _ _).mp hfollow
  obtain ⟨c, hcall, hrequest⟩ := (Option.any_eq_true _ _).mp hcall
  obtain ⟨p, hp, hc⟩ := Option.bind_eq_some_iff.mp hcall
  have hrequest := of_decide_eq_true hrequest
  have hrun := Run.of_follow? trial hs
  obtain ⟨hasked, htrace, hsent⟩ :=
    hruns _ s 0 p c _ Lock.fresh_single hrun hp hc (by rw [hrequest]; rfl)
  have hmillis : ttlMillis unsendable = 9223372036854776000 := by decide
  rw [hmillis] at htrace hsent
  refine ⟨⟨fun h => absurd (hlong.mp h) (by decide), hshort.mpr (by decide), ?_⟩,
    ⟨htoo, fun h => absurd (hnot.mp h) (by decide)⟩,
    s, p, c, hrun, hp, hc, hrequest, hasked, htrace (by decide), hsent scriptedReply []⟩
  exact (hgrows _ _ hlongest (by decide)).1

end Redis

end Leasehold
