import Leasehold.Proofs.Lock.Seekers
import Leasehold.Proofs.Simulation.Watch

/-!
# When an acquisition makes its attempts

Whatever becomes of the store, an acquisition makes its attempts at the multiples of the
backoff after its start, and no others.  It ends at the first attempt that succeeds, or at
its deadline, after all attempts that come before (`Seeker.keeps_schedule`).

The acquisition is watched among others who do with the store and the lock managers what
they like, as long as setting a key takes no time and the backoff stays (`Seeker.Leaves`).
They may cancel it or not (`Seeker.Spares`).
-/

namespace Leasehold.Lock.Seeker

open Simulation

variable {x : Seeker} {now t : Instant} {w w' : World} {p q : Process} {l : List (Nat × Act)}
  {turns : Behaviour World Process Result} {reply? : Instant → World → Call → Option Answer}

/-! ## What others leave -/

/-- A seeker that has not begun, in a world. -/
def post (x : Seeker) (w : World) : Post World Process := ⟨x.start, w, some (.action x.action)⟩

/-- What others leave behind.  They may cancel an acquisition, and cannot take that
back. -/
structure Leaves (x : Seeker) (y : Post World Process) (w : World) : Prop where
  serves : x.Serves w
  cancelled : ∀ p, y.process? = some p → p.IsCancelled y.world → p.IsCancelled w

/-- Others leave the world so that the acquisition is not cancelled. -/
structure Spares (x : Seeker) (y : Post World Process) (w : World) : Prop where
  serves : x.Serves w
  running : ∀ p, y.process? = some p → ¬ p.IsCancelled w

/-! ## Seekers that are not cancelled -/

/-- What holds of a seeker that is not cancelled, and of what it has done. -/
def Follows (x : Seeker) (l : List (Nat × Act)) (y : Post World Process) : Prop :=
  (y.process? = none → x.Fate l) ∧
    ∀ p, y.process? = some p → x.Serves y.world ∧ ¬ p.IsCancelled y.world ∧ x.Stage y.now p l

/-- A seeker goes on to any time unless it ends before, and it ends if it has a
deadline. -/
structure GoesOn (x : Seeker) (turns : Behaviour World Process Result)
    (reply? : Instant → World → Call → Option Answer) (y : Post World Process) : Prop where
  reaches : ∀ t, ∃ l z, Watch turns x.Spares (Process.acts turns reply?) y l z ∧
    (z.process? = none ∨ t ≤ z.now)
  ends : ∀ d, x.deadline? = some d →
    ∃ l z, Watch turns x.Spares (Process.acts turns reply?) y l z ∧ z.process? = none

section

variable {y : Post World Process} (hstore : x.AnswersAtOnce turns reply?)
  (hlease : IsLease x.lease) (hbackoff : 0 < x.backoff.nanos)

include hstore hlease hbackoff

theorem Follows.moves {records : List Log.Record} (h : x.Follows l ⟨now, w, some p⟩)
    (hmoves : turns now w p = .moves w' q records) :
    x.Follows (l ++ p.acts turns reply? now w) ⟨now, w', some q⟩ := by
  obtain ⟨hserves, hspared, hstage⟩ := h.2 p rfl
  have hfares := hstage.fares hstore hserves hlease hbackoff
  rw [hmoves] at hfares
  refine ⟨nofun, ?_⟩
  rintro _ ⟨⟩
  exact ⟨hfares.1, fun hq => hspared (hfares.2.1.mp hq), hfares.2.2⟩

theorem Follows.passes {p? : Option Process} (h : x.Follows l ⟨now, w, p?⟩) (hle : now ≤ t)
    (hwaits : ∀ p, p? = some p → WaitsUntil turns ⟨now, w, []⟩ t p) :
    x.Follows l ⟨t, w, p?⟩ := by
  refine ⟨h.1, fun p hp => ?_⟩
  obtain ⟨hserves, hspared, hstage⟩ := h.2 p hp
  have hfares := hstage.fares hstore hserves hlease hbackoff
  obtain ⟨due?, hturn, hdue⟩ := (hwaits p hp).exists_due
  rw [hturn] at hfares
  exact ⟨hserves, hspared, hfares t hle hdue⟩

variable (hserves : x.Serves w) (hspared : ¬ (Process.action x.action).IsCancelled w)

include hserves hspared

theorem follows (h : Watch turns x.Spares (Process.acts turns reply?) (x.post w) l y) :
    x.Follows l y := by
  refine h.preserves (I := x.Follows) (fun hfollows => hfollows.moves hstore hlease hbackoff) ?_ ?_
    (fun hfollows => hfollows.passes hstore hlease hbackoff) ⟨nofun, ?_⟩
  · rintro l t w p w' r started records ⟨-, hstage⟩ hends
    obtain ⟨hserves, hspared, hstage⟩ := hstage p rfl
    have hfares := hstage.fares hstore hserves hlease hbackoff
    rw [hends] at hfares
    refine ⟨fun _ => hfares hspared, ?_⟩
    rintro _ ⟨⟩
  · rintro l t w p? w' ⟨hover, hstage⟩ hchange
    refine ⟨hover, fun p hp => ?_⟩
    exact ⟨hchange.serves, hchange.running p hp, (hstage p hp).2.2⟩
  · rintro _ ⟨⟩
    exact ⟨hserves, hspared, .beginning rfl⟩

theorem goesOn (h : Watch turns x.Spares (Process.acts turns reply?) (x.post w) l y)
    (hne : y.process? ≠ none) : x.GoesOn turns reply? y := by
  have hlowers : ∀ {t w p}, (∃ l, x.Follows l ⟨t, w, some p⟩) →
      Lowers t (p.effort t) (Process.effort t) (turns t w p) := by
    rintro t w p ⟨l, hfollows⟩
    obtain ⟨hserves, -, hstage⟩ := hfollows.2 p rfl
    exact hstage.lowers hstore hserves hbackoff
  have hmoves : ∀ {t w p w' q records}, (∃ l, x.Follows l ⟨t, w, some p⟩) →
      turns t w p = .moves w' q records → ∃ l, x.Follows l ⟨t, w', some q⟩ := by
    rintro t w p w' q records ⟨l, hfollows⟩ hturn
    exact ⟨_, hfollows.moves hstore hlease hbackoff hturn⟩
  have hreaches : ∀ {l y}, Watch turns x.Spares (Process.acts turns reply?) (x.post w) l y →
      y.process? ≠ none → ∀ t, ∃ l' z,
        Watch turns x.Spares (Process.acts turns reply?) y l' z ∧
          (z.process? = none ∨ t ≤ z.now) := by
    rintro l ⟨u, w', p?⟩ h hne t
    obtain ⟨p, rfl⟩ := Option.ne_none_iff_exists'.mp hne
    refine Watch.exists_reached x.Spares (Process.acts turns reply?)
      (I := fun y => ∃ l, x.Follows l y) hlowers hmoves ?_
      ⟨l, follows hstore hlease hbackoff hserves hspared h⟩ t
    rintro t w p u ⟨l, hfollows⟩ hle hwaits
    refine ⟨l, hfollows.passes hstore hlease hbackoff hle ?_⟩
    rintro _ ⟨⟩
    exact hwaits
  refine ⟨hreaches h hne, fun d hd => ?_⟩
  obtain ⟨l₁, z, hz, hover | hle⟩ := hreaches h hne d
  · exact ⟨l₁, z, hz, hover⟩
  obtain ⟨t, w₁, p?⟩ := z
  cases p? with
  | none => exact ⟨l₁, _, hz, rfl⟩
  | some p =>
    -- The seeker is at its deadline, and does not wait there.
    have hfollows := follows hstore hlease hbackoff hserves hspared (h.trans hz)
    have htime : x.InTime t := (hfollows.2 p rfl).2.2.inTime
    obtain rfl : t = d := Instant.ext (Nat.le_antisymm (htime d hd) hle)
    obtain ⟨l₂, z, hrest, hover | ⟨w₂, q, due?, rfl, ⟨l₃, hfollows⟩, hwaits, -⟩⟩ :=
      Watch.exists_waits x.Spares (Process.acts turns reply?) (I := fun y => ∃ l, x.Follows l y)
        hlowers hmoves ⟨_, hfollows⟩
    · exact ⟨_, z, hz.trans hrest, hover⟩
    · exact absurd hwaits ((hfollows.2 q rfl).2.2.not_waits hstore hd)

end

/-! ## Seekers that end at once -/

/-- A seeker that waits for no answer, and so heeds a cancellation. -/
inductive Heeds (x : Seeker) : Process → Prop where
  | beginning : IsLease x.lease → Heeds x (.action x.action)
  | attempting {token deadline? n} : Heeds x (.attempting (x.bid token) deadline? n)
  | resting {token deadline? n due?} : Heeds x (.resting (x.bid token) deadline? n due?)

theorem Stage.heeds (h : x.Stage now p l) (hlease : IsLease x.lease) (hcall : p.call? = none) :
    x.Heeds p := by
  cases h with
  | beginning => exact .beginning hlease
  | attempting => exact .attempting
  | asking => cases hcall
  | resting => exact .resting

theorem Heeds.call? (h : x.Heeds p) : p.call? = none := by
  cases h <;> rfl

/-- A cancelled seeker gives up, and makes no attempt before. -/
theorem Heeds.closes (h : x.Heeds p) (hstore : x.AnswersAtOnce turns reply?)
    (hcancelled : p.IsCancelled w) :
    Watch.Closes (fun w p => x.Heeds p ∧ p.IsCancelled w)
      [(now.nanos, .ends (.failed (.timedOut x.key)))] (p.acts turns reply? now w)
      (turns now w p) := by
  rw [Process.acts, h.call?, hstore.unasked h.call?]
  cases h with
  | beginning hlease =>
    rw [turn_action hlease]
    exact ⟨rfl, .attempting, (w.isCancelled_token x.cancel).mpr hcancelled⟩
  | attempting =>
    rw [turn_attempting_gaveUp hcancelled]
    rfl
  | resting =>
    rw [turn_resting_gaveUp (.inl hcancelled)]
    rfl

theorem Heeds.endsNow (h : x.Heeds p) (hstore : x.AnswersAtOnce turns reply?)
    (hcancelled : p.IsCancelled w) :
    Watch.EndsNow turns x.Leaves (Process.acts turns reply?) ⟨now, w, some p⟩
      [(now.nanos, .ends (.failed (.timedOut x.key)))] := by
  refine Watch.endsNow (D := fun w p => x.Heeds p ∧ p.IsCancelled w)
    (fun hD => hD.1.closes hstore hD.2) (fun hD hleaves => ⟨hD.1, hleaves.cancelled _ rfl hD.2⟩)
    Process.effort (fun hD => ?_) ⟨h, hcancelled⟩
  rw [hstore.unasked hD.1.call?]
  refine turn_lowers _ fun bid deadline? n e hp => ?_
  rw [hp] at hD
  cases hD.1

/-- A seeker whose lease is too short is told so, and makes no attempt. -/
theorem endsNow_shortLease (hstore : x.AnswersAtOnce turns reply?) (hlease : ¬ IsLease x.lease) :
    Watch.EndsNow turns x.Leaves (Process.acts turns reply?) (x.post w)
      [(x.start.nanos, .ends (.failed (.shortLease x.lease)))] := by
  have hwritten : wholeSeconds? x.lease = none := if_neg hlease
  have hturn : ∀ w, turns x.start w (.action x.action) =
      .ends w (.failed (.shortLease x.lease)) [] [] := by
    intro w
    rw [hstore.unasked rfl]
    simp only [turn, begin, action, acquire, hwritten]
  refine Watch.endsNow (D := fun _ p => p = Process.action x.action) ?_
    (fun hD _ => hD) Process.effort ?_ rfl
  · rintro w _ rfl
    rw [Process.acts, hturn]
    rfl
  · rintro w _ rfl
    rw [hturn]
    exact Nat.succ_pos _

/-! ## Seekers in systems -/

/-- Time passes promptly, and all others spare the process of a number. -/
def Sparing (x : Seeker) (i : Nat) : Rule World Process := fun s c s' =>
  Prompt turn s c s' ∧ (¬ c.IsTurn i → x.Spares (s.post i) s'.world)

instance (x : Seeker) (y : Post World Process) (w : World) : Decidable (x.Spares y w) :=
  decidable_of_iff ((w.service.latency .set = .zero ∧
      (w.manager x.manager).config.backoff = x.backoff) ∧ ∀ p ∈ y.process?, ¬ p.IsCancelled w)
    ⟨fun h => ⟨⟨h.1.1, h.1.2⟩, h.2⟩, fun h => ⟨⟨h.serves.latency, h.serves.backoff⟩, h.running⟩⟩

instance (x : Seeker) (i : Nat) (s s' : Locks) (c : Choice Process) :
    Decidable (x.Sparing i s c s') :=
  inferInstanceAs (Decidable (_ ∧ _))

/-- A seeker in a system is watched. -/
theorem watch_of_chronicle {s s' : Locks} {i : Nat} (hpost : s.post i = x.post w)
    (h : Chronicle turn (x.Sparing i) (System.noteOf (Process.acts turn World.reply?) i) s l s') :
    Watch turn x.Spares (Process.acts turn World.reply?) (x.post w) l (s'.post i) := by
  have hprocess : s.process? i = some (.action x.action) := congrArg Post.process? hpost
  rw [← hpost]
  exact .of_chronicle (fun hrule => hrule.1) (fun _ hrule hother => hrule.2 hother) h
    (System.lt_length_of_process? hprocess)

/-! ## The main theorem -/

/-- **A seeker keeps its schedule**, before any store that answers its attempts at once,
and whatever others do.

* A seeker that is not cancelled makes its attempts at the multiples of the backoff
  after its start, and no others, until it wins at the first attempt that succeeds or has
  made all attempts that come before its deadline (`Underway`, `Fate`).  It does not
  stop before, and it ends if it has a deadline (`GoesOn`).  If it is cancelled while it
  waits for no answer, it gives up at once.
* A seeker that is cancelled before it begins gives up without an attempt.
* A seeker whose lease is too short is told so without an attempt. -/
theorem keeps_schedule (x : Seeker) {turns : Behaviour World Process Result}
    {reply? : Instant → World → Call → Option Answer} (hstore : x.AnswersAtOnce turns reply?)
    {w : World} (hserves : x.Serves w) (hbackoff : 0 < x.backoff.nanos) :
    (IsLease x.lease → ¬ (Process.action x.action).IsCancelled w →
      ∀ l y, Watch turns x.Spares (Process.acts turns reply?) (x.post w) l y →
        (y.process? = none → x.Fate l) ∧
        (y.process? ≠ none → x.Underway y.now l ∧ x.GoesOn turns reply? y) ∧
        ∀ p w', y.process? = some p → p.call? = none → p.IsCancelled w' →
          Watch.EndsNow turns x.Leaves (Process.acts turns reply?) ⟨y.now, w', some p⟩
            [(y.now.nanos, .ends (.failed (.timedOut x.key)))]) ∧
    (IsLease x.lease → (Process.action x.action).IsCancelled w →
      Watch.EndsNow turns x.Leaves (Process.acts turns reply?) (x.post w)
        [(x.start.nanos, .ends (.failed (.timedOut x.key)))]) ∧
    (¬ IsLease x.lease →
      Watch.EndsNow turns x.Leaves (Process.acts turns reply?) (x.post w)
        [(x.start.nanos, .ends (.failed (.shortLease x.lease)))]) := by
  refine ⟨fun hlease hspared l y hwatch => ?_, fun hlease hcancelled => ?_,
    endsNow_shortLease hstore⟩
  · have hfollows := follows hstore hlease hbackoff hserves hspared hwatch
    refine ⟨hfollows.1, fun hne => ⟨?_, ?_⟩, fun p w' hp hcall hcancelled => ?_⟩
    · obtain ⟨p, hp⟩ := Option.ne_none_iff_exists'.mp hne
      exact (hfollows.2 p hp).2.2.underway
    · exact goesOn hstore hlease hbackoff hserves hspared hwatch hne
    · exact ((hfollows.2 p hp).2.2.heeds hlease hcall).endsNow hstore hcancelled
  · exact (Heeds.beginning hlease).endsNow hstore hcancelled

/-- A seeker with a timeout of a backoff and a half. -/
def hasty : Seeker :=
  ⟨0, "k", "a", .ofSeconds 1, .ofNanos 300000000, "", .ofNanos 200000000, .epoch⟩

/-- The key has another token, and for now its store fails. -/
def outage : Locks where
  now := .epoch
  world := {
    service := {
      store := .faulty {
        memory := ⟨(∅ : Table Entry).insert "k" ⟨"b", none⟩⟩
        unavailable := true } }
    managers := [{}] }
  processes := [some (.action hasty.action), some (.store (.action (.unavailable false)))]

/-- What becomes of the seeker: the first attempt fails, the second one comes when the
store serves again and finds the key taken, and there is no third. -/
def hastyActs : List (Nat × Act) :=
  hasty.rounds [.failed (.connection "fake store unavailable"), .occupied] ++
    [(300000000, .ends (.failed (.timedOut "k")))]

/-- The store serves again after the first attempt. -/
def hastyChoices : List (Choice Process) :=
  [.turn 0, .turn 0, .turn 0, .turn 1, .pass { nanos := 200000000 }, .turn 0, .turn 0, .turn 0,
    .pass { nanos := 300000000 }, .turn 0]

theorem keeps_schedule_hasty :
    hasty.AnswersAtOnce turn World.reply? ∧ hasty.Serves outage.world ∧
      0 < hasty.backoff.nanos ∧ IsLease hasty.lease ∧
      ¬ (Process.action hasty.action).IsCancelled outage.world ∧
      ∃ s, Chronicle turn (hasty.Sparing 0) (System.noteOf (Process.acts turn World.reply?) 0)
        outage hastyActs s ∧ s.process? 0 = none ∧ hasty.Fate hastyActs := by
  have hserves : hasty.Serves outage.world := ⟨rfl, rfl⟩
  have hbackoff : 0 < hasty.backoff.nanos := by decide
  have hlease : IsLease hasty.lease := by decide
  have hspared : ¬ (Process.action hasty.action).IsCancelled outage.world := by decide
  have hruns : (outage.follow? turn (hasty.Sparing 0) hastyChoices).any
      (fun s => (s.process? 0).isNone) = true := by decide +kernel
  obtain ⟨s, hs, hover⟩ := (Option.any_eq_true _ _).mp hruns
  have hover : s.process? 0 = none := Option.isNone_iff_eq_none.mp hover
  have hacts : outage.notes turn (System.noteOf (Process.acts turn World.reply?) 0) hastyChoices =
      hastyActs := by decide +kernel
  have hchronicle : Chronicle turn (hasty.Sparing 0)
      (System.noteOf (Process.acts turn World.reply?) 0) outage hastyActs s :=
    hacts ▸ .of_follow? hastyChoices hs
  have hwatch := watch_of_chronicle (x := hasty) (w := outage.world) rfl hchronicle
  have hschedule := keeps_schedule hasty (answersAtOnce_turn hasty) hserves hbackoff
  exact ⟨answersAtOnce_turn hasty, hserves, hbackoff, hlease, hspared, s, hchronicle, hover,
    (hschedule.1 hlease hspared _ _ hwatch).1 hover⟩

end Leasehold.Lock.Seeker
