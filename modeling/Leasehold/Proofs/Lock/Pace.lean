import Leasehold.Proofs.Lock.Quiescence
import Leasehold.Proofs.Lock.Slots
import Leasehold.Proofs.Simulation.Watch

/-!
# When a renewal makes its refreshes

A renewal that nobody cancels makes as many refreshes as its budget allows and ends, and
the refreshes keep to the slots after the acquisition (`Renewing.keeps_pace`).

The renewal is watched among others who do with the store what they like, so a refresh
may be answered in any way and take any time.
-/

namespace Leasehold.Lock.Renewing

open Simulation

/-- A renewal that has not begun, in a world. -/
def post (r : Renewing) (w : World) : Post World Process :=
  ⟨r.acquiredAt, w, some (.renewing r .starting)⟩

/-- Others do not cancel a renewal. -/
def Spares (r : Renewing) (_ : Post World Process) (w : World) : Prop :=
  w.tokens.isCancelled r.token = false

/-- An instant is the one that a clock reads so, if it can. -/
def Marks (t? : Option Instant) (nanos : Nat) : Prop := ∀ t, t? = some t ↔ t.nanos = nanos

/-- What a renewal has done that goes on.  The refresh that is under way counts as one that
is over by now. -/
inductive Underway (r : Renewing) (now : Instant) : List (Nat × Act) → Prop where
  /-- It waits for the time of its next refresh. -/
  | between {xs} :
      r.Paced xs → r.Spaced xs → xs.length ≤ r.budget → r.rested xs ≤ now.nanos →
      now.nanos ≤ r.opens xs → (xs.length = r.budget → now.nanos = r.rested xs) →
      Underway r now (r.calls xs)
  /-- A refresh is under way. -/
  | within {xs x} :
      r.Paced (xs ++ [x]) → r.Spaced (xs ++ [x]) → xs.length < r.budget → x.finish = now.nanos →
      Underway r now (r.calls xs ++ [(x.start, .asks r.request)])

/-- What a renewal has done that is over. -/
structure Completed (r : Renewing) (xs : List Round) (l : List (Nat × Act)) : Prop where
  length : xs.length = r.budget
  paced : r.Paced xs
  spaced : r.Spaced xs
  acts : l = r.calls xs ++ [(r.rested xs, .ends .ok)]

/-- How far a renewal has come at an instant, and what it has done. -/
inductive Stage (r : Renewing) (now : Instant) : Process → List (Nat × Act) → Prop where
  | starting : now = r.acquiredAt → Stage r now (.renewing r .starting) (r.calls [])
  | waiting {xs tick?} :
      r.Paced xs → xs.length ≤ r.budget → r.rested xs ≤ now.nanos → now.nanos ≤ r.opens xs →
      (xs.length = r.budget → now.nanos = r.rested xs) → Marks tick? (r.tick (r.next xs)) →
      Stage r now (.renewing r (.waiting (xs.length + 1) tick?)) (r.calls xs)
  | refreshing {xs next? c start} :
      r.Paced xs → xs.length < r.budget → start = r.opens xs → start ≤ now.nanos →
      Marks next? (r.tick (r.slot start + 1)) →
      Stage r now (.renewing r (.refreshing (xs.length + 1) next? (.single c)))
        (r.calls xs ++ [(start, .asks r.request)])

/-- The turn of a renewal that has done `l` before it and `l'` after it. -/
def Fares (r : Renewing) (now : Instant) (w : World) (p : Process) (l l' : List (Nat × Act)) :
    Turn World Process Result → Prop
  | .waits due? => ∀ t, now ≤ t → (∀ due, due? = some due → t ≤ due) → r.Stage t p l
  | .moves w' q _ => w'.tokens = w.tokens ∧ r.Stage now q l'
  | .ends .. => ∃ xs, r.Completed xs l'

variable {r : Renewing} {now t : Instant} {w w' : World} {p q : Process}
  {l : List (Nat × Act)} {xs : List Round} {x y : Post World Process} {n : Nat}

/-! ## Ticks -/

/-- What no clock can read does not come. -/
theorem Marks.le {t? : Option Instant} {nanos : Nat} (h : Marks t? nanos)
    (hle : ∀ due, t? = some due → t ≤ due) : t.nanos ≤ nanos := by
  cases t? with
  | none =>
    refine Nat.le_of_not_lt fun hlt => ?_
    have hmark := (h ⟨nanos, Nat.lt_trans hlt t.nanos_lt⟩).mpr rfl
    cases hmark
  | some due =>
    rw [← (h due).mp rfl]
    exact hle due rfl

/-- The next tick is that of the slot after the one in which a refresh starts. -/
theorem marks_nextTick? {last : Instant} (hinterval : 0 < r.interval.nanos)
    (htick : last.nanos = r.tick n) (hle : last ≤ now) :
    Marks (nextTick? last now r.interval) (r.tick (r.slot now.nanos + 1)) := by
  have hle : last.nanos ≤ now.nanos := hle
  rw [tick] at htick
  have hsplit : now.nanos - r.acquiredAt.nanos =
      now.nanos - last.nanos + n * r.interval.nanos := by omega
  have hnext : last.nanos + ((now.nanos - last.nanos) / r.interval.nanos + 1) * r.interval.nanos =
      r.tick (r.slot now.nanos + 1) := by
    rw [slot, tick, hsplit, Nat.add_mul_div_right _ _ hinterval, Nat.add_right_comm,
      Nat.add_mul _ n]
    omega
  rw [← hnext]
  exact fun _ => nextTick?_eq_some_iff

/-! ## The turns of a renewal -/

/-- A renewal that begins waits for its first tick. -/
theorem turn_starting (now : Instant) (w : World)
    (hfirst : r.acquiredAt.after? r.interval ≠ none)
    (hp : p = .renewing r .starting) :
    ∃ first, turn now w p = .moves w (.renewing r (.waiting 1 (some first))) [] ∧
      p.acts turn World.reply? now w = [] ∧ Marks (some first) (r.tick (r.next [])) := by
  obtain ⟨first, hfirst⟩ := Option.ne_none_iff_exists'.mp hfirst
  have hmoves : turn now w p = .moves w (.renewing r (.waiting 1 (some first))) [] := by
    rw [hp]
    simp only [turn, renewalTurn, hfirst]
  refine ⟨first, hmoves, ?_, fun t => ?_⟩
  · rw [Process.acts, hmoves, hp]
    rfl
  · have htick : r.tick (r.next []) = first.nanos := by
      rw [Instant.nanos_of_after?_eq_some hfirst, next, tick, List.getLast?_nil,
        Option.elim_none, Nat.one_mul]
    rw [htick, Option.some_inj, Instant.ext_iff]
    exact eq_comm

/-- A renewal whose budget is spent ends. -/
theorem turn_spent {tick? : Option Instant} (hspent : r.budget < n)
    (hp : p = .renewing r (.waiting n tick?)) :
    (∃ w' records, turn now w p = .ends w' .ok [] records) ∧
      p.acts turn World.reply? now w = [(now.nanos, .ends .ok)] := by
  have hends : turn now w p = renewalEnds w r (.spent r.key r.budget) := by
    rw [hp]
    exact if_pos hspent
  refine ⟨⟨_, _, hends⟩, ?_⟩
  rw [Process.acts, hends, hp]
  rfl

/-- A renewal that has not ended waits for its tick. -/
theorem turn_waiting (now : Instant) (tick? : Option Instant)
    (hspared : w.tokens.isCancelled r.token = false) (hbudget : n ≤ r.budget) :
    turn now w (.renewing r (.waiting n tick?)) = tick?.elim (.waits none) fun tick =>
      if tick ≤ now then
        .moves w (.renewing r (.refreshing n (nextTick? tick now r.interval)
          (.single (w.service.call now r.request)))) []
      else .waits (some tick) := by
  simp only [turn, renewalTurn, if_neg (Nat.not_lt.mpr hbudget), hspared, Bool.false_eq_true,
    if_false, Service.errand_refresh]
  cases tick? <;> rfl

/-- A renewal asks for a refresh when its tick has come. -/
theorem turn_asks {tick : Instant} (hspared : w.tokens.isCancelled r.token = false)
    (hbudget : n ≤ r.budget) (hdue : tick ≤ now)
    (hp : p = .renewing r (.waiting n (some tick))) :
    turn now w p = .moves w (.renewing r (.refreshing n (nextTick? tick now r.interval)
        (.single (w.service.call now r.request)))) [] ∧
      p.acts turn World.reply? now w = [(now.nanos, .asks r.request)] := by
  have hmoves : turn now w p = .moves w (.renewing r (.refreshing n
      (nextTick? tick now r.interval) (.single (w.service.call now r.request)))) [] := by
    rw [hp, turn_waiting now _ hspared hbudget]
    exact if_pos hdue
  refine ⟨hmoves, ?_⟩
  rw [Process.acts, hmoves, hp]
  rfl

/-- A renewal waits for its next tick when it has heard what came of a refresh. -/
theorem turn_hears {next? : Option Instant} {c : Call} {s : Service} {a : Answer}
    {started : List Call} {records : List Log.Record}
    (hcase : Service.callTurn now w.service c = .ends s a started records)
    (hp : p = .renewing r (.refreshing n next? (.single c))) :
    (∃ records, turn now w p =
        .moves (w.withService s) (.renewing r (.waiting (n + 1) next?)) records) ∧
      p.acts turn World.reply? now w = [(now.nanos, .hears a)] := by
  have hcall : p.call? = some c := by
    rw [hp]
    rfl
  obtain ⟨records, hmoves⟩ : ∃ records, turn now w p =
      .moves (w.withService s) (.renewing r (.waiting (n + 1) next?)) records := by
    rw [turn_call hcall, hcase, hp]
    exact ⟨_, by rfl⟩
  refine ⟨⟨records, hmoves⟩, ?_⟩
  rw [Process.acts, hmoves, hcall, Option.bind_some, World.reply?, hcase, Act.ofTurn, hcall]
  rfl

/-! ## Stages -/

theorem Stage.underway (h : r.Stage now p l) (hinterval : 0 < r.interval.nanos) :
    r.Underway now l := by
  cases h with
  | starting hnow =>
    subst hnow
    exact .between .nil (Paced.nil.spaced hinterval) (Nat.zero_le _) (Nat.le_refl _)
      (Nat.le_max_left _ _) fun _ => rfl
  | waiting hpaced hlength hrested hopens hlast _ =>
    exact .between hpaced (hpaced.spaced hinterval) hlength hrested hopens hlast
  | @refreshing xs _ _ start hpaced hlength hstart hle _ =>
    have hnext : r.Paced (xs ++ [⟨start, now.nanos, .done⟩]) := hpaced.concat hstart hle
    exact .within hnext (hnext.spaced hinterval) hlength rfl

theorem fares_starting (hnow : now = r.acquiredAt) (hfirst : r.acquiredAt.after? r.interval ≠ none)
    (hp : p = .renewing r .starting) :
    r.Fares now w p (r.calls []) (r.calls [] ++ p.acts turn World.reply? now w)
      (turn now w p) := by
  obtain ⟨first, hmoves, hacts, hmarks⟩ := turn_starting now w hfirst hp
  rw [hmoves, Fares, hacts, List.append_nil, hnow]
  exact ⟨rfl, .waiting .nil (Nat.zero_le _) (Nat.le_refl _) (Nat.le_max_left _ _)
    (fun _ => rfl) hmarks⟩

/-- A renewal ends after its last refresh, or makes the next one at its tick. -/
theorem fares_waiting {tick? : Option Instant} (hspared : w.tokens.isCancelled r.token = false)
    (hinterval : 0 < r.interval.nanos) (hpaced : r.Paced xs) (hlength : xs.length ≤ r.budget)
    (hrested : r.rested xs ≤ now.nanos) (hopens : now.nanos ≤ r.opens xs)
    (hlast : xs.length = r.budget → now.nanos = r.rested xs)
    (hmarks : Marks tick? (r.tick (r.next xs)))
    (hp : p = .renewing r (.waiting (xs.length + 1) tick?)) :
    r.Fares now w p (r.calls xs) (r.calls xs ++ p.acts turn World.reply? now w)
      (turn now w p) := by
  by_cases hspent : r.budget < xs.length + 1
  · have hlength : xs.length = r.budget := Nat.le_antisymm hlength (Nat.le_of_lt_succ hspent)
    obtain ⟨⟨w', records, hends⟩, hacts⟩ := turn_spent hspent hp
    rw [hends, Fares, hacts, hlast hlength]
    exact ⟨xs, hlength, hpaced, hpaced.spaced hinterval, rfl⟩
  have hlt : xs.length < r.budget := Nat.lt_of_succ_le (Nat.le_of_not_lt hspent)
  have hstays : ∀ t, now ≤ t → t.nanos ≤ r.tick (r.next xs) → r.Stage t p (r.calls xs) := by
    intro t hle ht
    rw [hp]
    exact .waiting hpaced hlength (Nat.le_trans hrested hle)
      (Nat.le_trans ht (Nat.le_max_right _ _)) (fun heq => absurd heq (Nat.ne_of_lt hlt)) hmarks
  have hturn := turn_waiting now tick? hspared hlt
  rw [← hp] at hturn
  cases tick? with
  | none =>
    rw [hturn]
    exact fun t hle hdue => hstays t hle (hmarks.le hdue)
  | some tick =>
    by_cases hdue : tick ≤ now
    · have htick : tick.nanos = r.tick (r.next xs) := (hmarks tick).mp rfl
      have hstart : now.nanos = r.opens xs :=
        Nat.le_antisymm hopens (Nat.max_le.mpr ⟨hrested, htick ▸ hdue⟩)
      obtain ⟨hmoves, hacts⟩ := turn_asks hspared hlt hdue hp
      rw [hmoves, Fares, hacts]
      exact ⟨rfl, .refreshing hpaced hlt hstart (Nat.le_refl _)
        (marks_nextTick? hinterval htick hdue)⟩
    · have hwaits : turn now w p = .waits (some tick) := hturn.trans (if_neg hdue)
      rw [hwaits]
      exact fun t hle hdue => hstays t hle (hmarks.le hdue)

/-- A refresh goes on, or it is over. -/
theorem fares_refreshing {next? : Option Instant} {c : Call} {start : Nat}
    (hpaced : r.Paced xs) (hlength : xs.length < r.budget) (hstart : start = r.opens xs)
    (hle : start ≤ now.nanos) (hmarks : Marks next? (r.tick (r.slot start + 1)))
    (hp : p = .renewing r (.refreshing (xs.length + 1) next? (.single c))) :
    r.Fares now w p (r.calls xs ++ [(start, .asks r.request)])
      (r.calls xs ++ [(start, .asks r.request)] ++ p.acts turn World.reply? now w)
      (turn now w p) := by
  have hcall : p.call? = some c := by
    rw [hp]
    rfl
  have hturn : turn now w p = _ := turn_call hcall
  cases hcase : Service.callTurn now w.service c with
  | waits due? =>
    rw [hcase] at hturn
    rw [hturn]
    intro t hnow _
    rw [hp]
    exact .refreshing hpaced hlength hstart (Nat.le_trans hle hnow) hmarks
  | moves s c' records =>
    rw [hcase] at hturn
    have hacts : p.acts turn World.reply? now w = [] := by
      rw [Process.acts, hturn, hcall, Option.bind_some, World.reply?, hcase, Act.ofTurn, hcall]
      rfl
    rw [hturn, Fares, hacts, List.append_nil, hp]
    exact ⟨rfl, .refreshing hpaced hlength hstart hle hmarks⟩
  | ends s a started records =>
    obtain ⟨⟨records, hmoves⟩, hacts⟩ := turn_hears hcase hp
    let x : Round := ⟨start, now.nanos, a⟩
    have hround : r.Paced (xs ++ [x]) := hpaced.concat hstart hle
    have hcalls : r.calls xs ++ [(start, .asks r.request)] ++ [(now.nanos, .hears a)] =
        r.calls (xs ++ [x]) := by
      rw [calls_concat, List.append_assoc]
      rfl
    have hcount : (xs ++ [x]).length = xs.length + 1 := List.length_append
    have hrested : r.rested (xs ++ [x]) = now.nanos := rested_concat _ _ _
    rw [hmoves, Fares, hacts, hcalls, ← hcount]
    refine ⟨rfl, .waiting hround ?_ (Nat.le_of_eq hrested) ?_ (fun _ => hrested.symm) ?_⟩
    · rw [hcount]
      exact hlength
    · rw [opens, hrested]
      exact Nat.le_max_left _ _
    · rw [next_concat]
      exact hmarks

theorem Stage.fares (h : r.Stage now p l) (hspared : w.tokens.isCancelled r.token = false)
    (hinterval : 0 < r.interval.nanos) (hfirst : r.acquiredAt.after? r.interval ≠ none) :
    r.Fares now w p l (l ++ p.acts turn World.reply? now w) (turn now w p) := by
  cases h with
  | starting hnow => exact fares_starting hnow hfirst rfl
  | waiting hpaced hlength hrested hopens hlast hmarks =>
    exact fares_waiting hspared hinterval hpaced hlength hrested hopens hlast hmarks rfl
  | refreshing hpaced hlength hstart hle hmarks =>
    exact fares_refreshing hpaced hlength hstart hle hmarks rfl

/-! ## Renewals that are not cancelled -/

/-- What holds of a renewal that is not cancelled, and of what it has done. -/
def Follows (r : Renewing) (l : List (Nat × Act)) (y : Post World Process) : Prop :=
  (y.process? = none → ∃ xs, r.Completed xs l) ∧
    ∀ p, y.process? = some p → r.Spares y y.world ∧ r.Stage y.now p l

section

variable (hinterval : 0 < r.interval.nanos) (hfirst : r.acquiredAt.after? r.interval ≠ none)

include hinterval hfirst

theorem Follows.moves {records : List Log.Record} (h : r.Follows l ⟨now, w, some p⟩)
    (hmoves : turn now w p = .moves w' q records) :
    r.Follows (l ++ p.acts turn World.reply? now w) ⟨now, w', some q⟩ := by
  obtain ⟨hspared, hstage⟩ := h.2 p rfl
  have hfares := hstage.fares hspared hinterval hfirst
  rw [hmoves] at hfares
  refine ⟨nofun, ?_⟩
  rintro _ ⟨⟩
  refine ⟨?_, hfares.2⟩
  rw [Spares, hfares.1]
  exact hspared

theorem Follows.passes {p? : Option Process} (h : r.Follows l ⟨now, w, p?⟩) (hle : now ≤ t)
    (hwaits : ∀ p, p? = some p → WaitsUntil turn ⟨now, w, []⟩ t p) :
    r.Follows l ⟨t, w, p?⟩ := by
  refine ⟨h.1, fun p hp => ?_⟩
  obtain ⟨hspared, hstage⟩ := h.2 p hp
  have hfares := hstage.fares hspared hinterval hfirst
  obtain ⟨due?, hturn, hdue⟩ := (hwaits p hp).exists_due
  rw [hturn] at hfares
  exact ⟨hspared, hfares t hle hdue⟩

variable (hspared : w.tokens.isCancelled r.token = false)

include hspared

theorem follows (h : Watch turn r.Spares (Process.acts turn World.reply?) (r.post w) l y) :
    r.Follows l y := by
  refine h.preserves (I := r.Follows) (fun hfollows => hfollows.moves hinterval hfirst) ?_ ?_
    (fun hfollows => hfollows.passes hinterval hfirst) ⟨nofun, ?_⟩
  · rintro l t w p w' result started records ⟨-, hstage⟩ hends
    obtain ⟨hspared, hstage⟩ := hstage p rfl
    have hfares := hstage.fares hspared hinterval hfirst
    rw [hends] at hfares
    refine ⟨fun _ => hfares, ?_⟩
    rintro _ ⟨⟩
  · rintro l t w p? w' ⟨hover, hstage⟩ hchange
    exact ⟨hover, fun p hp => ⟨hchange, (hstage p hp).2⟩⟩
  · rintro _ ⟨⟩
    exact ⟨hspared, .starting rfl⟩

/-- A renewal goes on to any time unless it ends before. -/
theorem goesOn (h : Watch turn r.Spares (Process.acts turn World.reply?) (r.post w) l y)
    (t : Instant) : ∃ l z, Watch turn r.Spares (Process.acts turn World.reply?) y l z ∧
      (z.process? = none ∨ t ≤ z.now) := by
  obtain ⟨u, w', p?⟩ := y
  cases p? with
  | none => exact ⟨[], _, .refl, .inl rfl⟩
  | some p =>
    have hlowers : ∀ {t w p}, (∃ l, r.Follows l ⟨t, w, some p⟩) →
        Lowers t (p.effort t) (Process.effort t) (turn t w p) := by
      rintro t w p ⟨l, hfollows⟩
      refine turn_lowers p fun bid deadline? attempts e hp => ?_
      have hstage := (hfollows.2 p rfl).2
      rw [hp] at hstage
      cases hstage
    refine Watch.exists_reached r.Spares (Process.acts turn World.reply?)
      (I := fun y => ∃ l, r.Follows l y) hlowers ?_ ?_
      ⟨l, follows hinterval hfirst hspared h⟩ t
    · rintro t w p w' q records ⟨l, hfollows⟩ hmoves
      exact ⟨_, hfollows.moves hinterval hfirst hmoves⟩
    · rintro t w p u ⟨l, hfollows⟩ hle hwaits
      refine ⟨l, hfollows.passes hinterval hfirst hle ?_⟩
      rintro _ ⟨⟩
      exact hwaits

end

/-! ## Renewals before a store that takes its time -/

section

variable (hspared : w.tokens.isCancelled r.token = false)

include hspared

/-- A renewal makes its next refresh, and it takes as long as others please. -/
theorem exists_round {tick? : Option Instant} {d : Duration}
    (h : Watch turn r.Spares (Process.acts turn World.reply?) x l
      ⟨t, w, some (.renewing r (.waiting n tick?))⟩)
    (hinterval : 0 < r.interval.nanos) (hbudget : n ≤ r.budget) (hrested : t.nanos = r.rested xs)
    (hmarks : Marks tick? (r.tick (r.next xs)))
    (hlimit : r.opens xs + d.nanos < 9223372036854775808000000000) :
    ∃ a u w' next?, u.nanos = r.opens xs + d.nanos ∧ w'.tokens.isCancelled r.token = false ∧
      Marks next? (r.tick (r.slot (r.opens xs) + 1)) ∧
      Watch turn r.Spares (Process.acts turn World.reply?) x
        (l ++ [(r.opens xs, .asks r.request), (r.opens xs + d.nanos, .hears a)])
        ⟨u, w', some (.renewing r (.waiting (n + 1) next?))⟩ := by
  let w₁ : World := w.withService { store := .memory {}, latency := fun _ => d }
  let u : Instant := ⟨r.opens xs, by omega⟩
  let v : Instant := ⟨r.opens xs + d.nanos, hlimit⟩
  have htu : t ≤ u := Nat.le_trans (Nat.le_of_eq hrested) (Nat.le_max_left _ _)
  have huv : u ≤ v := Nat.le_add_right _ _
  have htick : r.tick (r.next xs) ≤ r.opens xs := Nat.le_max_right _ _
  obtain ⟨tick, htick?, hnanos⟩ : ∃ tick, tick? = some tick ∧ tick.nanos = r.tick (r.next xs) :=
    ⟨⟨r.tick (r.next xs), by omega⟩, (hmarks _).mpr rfl, rfl⟩
  subst htick?
  have hdue : tick ≤ u := Nat.le_trans (Nat.le_of_eq hnanos) htick
  -- Until the refresh starts, the renewal waits for its tick.
  have hstart : Watch turn r.Spares (Process.acts turn World.reply?) x l
      ⟨u, w₁, some (.renewing r (.waiting n (some tick)))⟩ := by
    refine Watch.waits (h.changes hspared) htu fun hlt => ?_
    have hlt : r.rested xs < r.opens xs := hrested ▸ hlt
    have hopens : r.opens xs = r.tick (r.next xs) := by
      unfold opens at hlt ⊢
      omega
    obtain rfl : tick = u := Instant.ext (hnanos.trans hopens.symm)
    rw [turn_waiting (w := w₁) t (some u) hspared hbudget]
    exact if_neg (Nat.not_le.mpr (hrested ▸ hlt))
  obtain ⟨hasks, hnote⟩ := turn_asks (p := .renewing r (.waiting n (some tick)))
    (w := w₁) hspared hbudget hdue rfl
  have hasked := hstart.moves hasks
  rw [hnote] at hasked
  -- The call arrives after the latency that the store was given.
  have harrival : u.after? d = some v := Instant.after?_of_lt hlimit
  have hcall : w₁.service.call u r.request = ⟨r.request, u, .approaching (some v)⟩ := by
    rw [← harrival]
    rfl
  rw [hcall] at hasked
  have harrived := Watch.waits hasked huv fun hlt => by
    rw [turn_call rfl, Service.callTurn_approaches w₁.service rfl hlt]
  obtain ⟨a, s, hends⟩ := Service.callTurn_arrives_memory (s := w₁.service)
    (c := ⟨r.request, u, .approaching (some v)⟩) rfl (Nat.le_refl v.nanos) rfl
  obtain ⟨⟨records, hmoves⟩, hnote⟩ := turn_hears hends rfl
  have hheard := harrived.moves hmoves
  rw [hnote, List.append_assoc] at hheard
  exact ⟨a, v, w₁.withService s, _, rfl, hspared, marks_nextTick? hinterval hnanos hdue, hheard⟩

/-- A renewal makes its refreshes one after the other, and each takes as long as given. -/
theorem exists_rounds (hinterval : 0 < r.interval.nanos)
    (hfirst : r.acquiredAt.after? r.interval ≠ none) (latency : Nat → Duration)
    (hlimit : ∀ k < r.budget,
      r.start latency k + (latency k).nanos < 9223372036854775808000000000) :
    ∀ n ≤ r.budget, ∃ xs t w' tick?,
      Watch turn r.Spares (Process.acts turn World.reply?) (r.post w) (r.calls xs)
        ⟨t, w', some (.renewing r (.waiting (n + 1) tick?))⟩ ∧ r.Paced xs ∧
      xs.map (fun x => (x.start, x.finish)) = r.times latency n ∧ t.nanos = r.rested xs ∧
      w'.tokens.isCancelled r.token = false ∧ Marks tick? (r.tick (r.next xs)) := by
  intro n
  induction n with
  | zero =>
    intro _
    obtain ⟨first, hmoves, hacts, hmarks⟩ :=
      turn_starting r.acquiredAt w hfirst rfl
    have hstart : Watch turn r.Spares (Process.acts turn World.reply?) (r.post w) [] (r.post w) :=
      .refl
    have hwatch := hstart.moves hmoves
    rw [hacts] at hwatch
    exact ⟨[], _, _, _, hwatch, .nil, rfl, rfl, hspared, hmarks⟩
  | succ n ih =>
    intro hn
    obtain ⟨xs, t, w', tick?, hwatch, hpaced, htimes, hrested, hspared, hmarks⟩ :=
      ih (Nat.le_of_succ_le hn)
    have hopens := opens_eq_start htimes
    obtain ⟨a, u, w₁, next?, hu, hspared, hnext, hround⟩ :=
      exists_round hspared hwatch hinterval hn hrested hmarks (hopens ▸ hlimit n hn)
    let x : Round := ⟨r.opens xs, r.opens xs + (latency n).nanos, a⟩
    refine ⟨xs ++ [x], u, w₁, next?, ?_, hpaced.concat rfl (Nat.le_add_right _ _), ?_, ?_,
      hspared, ?_⟩
    · rw [calls_concat]
      exact hround
    · rw [List.map_append, htimes, times_succ, List.map_singleton, ← hopens]
    · rw [rested_concat]
      exact hu
    · rw [next_concat]
      exact hnext

end

/-! ## Renewals in systems -/

/-- Time passes promptly, and nobody cancels the renewal of a number. -/
def Sparing (r : Renewing) (i : Nat) : Rule World Process := fun s c s' =>
  Prompt turn s c s' ∧ (¬ c.IsTurn i → r.Spares (s.post i) s'.world)

instance (r : Renewing) (i : Nat) (s s' : Locks) (c : Choice Process) :
    Decidable (r.Sparing i s c s') := by
  unfold Sparing Spares
  infer_instance

/-- A renewal in a system is watched. -/
theorem watch_of_chronicle {s s' : Locks} {i : Nat} (hpost : s.post i = r.post w)
    (h : Chronicle turn (r.Sparing i) (System.noteOf (Process.acts turn World.reply?) i) s l s') :
    Watch turn r.Spares (Process.acts turn World.reply?) (r.post w) l (s'.post i) := by
  have hprocess : s.process? i = some (.renewing r .starting) := congrArg Post.process? hpost
  rw [← hpost]
  exact .of_chronicle (fun hrule => hrule.1) (fun _ hrule hother => hrule.2 hother) h
    (System.lt_length_of_process? hprocess)

/-! ## The main theorem -/

/-- **A renewal keeps pace** with the slots after the acquisition, however long its
refreshes take and whatever becomes of them.

* A renewal that is not cancelled makes as many refreshes as its budget allows, one after
  the other, no two in the same slot and none before its tick, and each at its tick if all
  before took less than an interval (`Spaced`, `Completed`).  Until it ends it has made
  those that are due (`Underway`), and time can go on until it ends.
* Refreshes may take any time.  Whatever time each takes, as long as clocks can read when
  it is over, the renewal can end, and then they start at the instants that `start` says. -/
theorem keeps_pace (r : Renewing) (hinterval : .ofSeconds 1 ≤ r.interval)
    (hfirst : r.acquiredAt.after? r.interval ≠ none) {w : World}
    (hspared : w.tokens.isCancelled r.token = false) :
    (∀ l y, Watch turn r.Spares (Process.acts turn World.reply?) (r.post w) l y →
      (y.process? = none → ∃ xs, r.Completed xs l) ∧
      (y.process? ≠ none → r.Underway y.now l) ∧
      ∀ t, ∃ l' z, Watch turn r.Spares (Process.acts turn World.reply?) y l' z ∧
        (z.process? = none ∨ t ≤ z.now)) ∧
    (∀ latency : Nat → Duration,
      (∀ k < r.budget, r.start latency k + (latency k).nanos < 9223372036854775808000000000) →
      ∃ l y xs, Watch turn r.Spares (Process.acts turn World.reply?) (r.post w) l y ∧
        y.process? = none ∧ r.Completed xs l ∧
        xs.map (fun x => (x.start, x.finish)) = r.times latency r.budget) := by
  have hinterval : 0 < r.interval.nanos := Nat.lt_of_lt_of_le (by decide) hinterval
  refine ⟨fun l y hwatch => ?_, fun latency hlimit => ?_⟩
  · have hfollows := follows hinterval hfirst hspared hwatch
    refine ⟨hfollows.1, fun hne => ?_, goesOn hinterval hfirst hspared hwatch⟩
    obtain ⟨p, hp⟩ := Option.ne_none_iff_exists'.mp hne
    exact (hfollows.2 p hp).2.underway hinterval
  · obtain ⟨xs, t, w', tick?, hwatch, hpaced, htimes, hrested, -, -⟩ :=
      exists_rounds hspared hinterval hfirst latency hlimit r.budget (Nat.le_refl _)
    obtain ⟨⟨w₁, records, hends⟩, hacts⟩ := turn_spent (Nat.lt_succ_self r.budget) rfl
    have hover := hwatch.ends hends
    rw [hacts] at hover
    refine ⟨_, _, xs, hover, rfl, ⟨?_, hpaced, hpaced.spaced hinterval, ?_⟩, htimes⟩
    · simpa [times] using congrArg List.length htimes
    · rw [hrested]

/-- A renewal that refreshes every second, three times. -/
def patient : Renewing := ⟨0, "k", 0, 0, { nanos := 250000000 }, .ofSeconds 1, 3⟩

/-- For now a refresh takes two seconds and a half. -/
def sluggish : Locks where
  now := patient.acquiredAt
  world := {
    service := { store := .memory {}, latency := fun _ => .ofNanos 2500000000 }
    managers := [{}] }
  processes := [some (.renewing patient .starting)]

/-- The first refresh takes the second one along, which starts as soon as it can, and the
third one comes at its tick again, which is the fourth. -/
def patientRounds : List Round :=
  [⟨1250000000, 3750000000, .failed (.notFound "k")⟩,
    ⟨3750000000, 3750000000, .failed (.notFound "k")⟩,
    ⟨4250000000, 4250000000, .failed (.notFound "k")⟩]

/-- While the first refresh is under way somebody mends the store. -/
def patientChoices : List (Choice Process) :=
  [.turn 0, .pass { nanos := 1250000000 }, .turn 0,
    .start (.store (.action (.latency .refresh .zero))), .turn 1,
    .pass { nanos := 3750000000 }, .turn 0, .turn 0, .turn 0,
    .pass { nanos := 4250000000 }, .turn 0, .turn 0, .turn 0]

theorem keeps_pace_patient :
    (.ofSeconds 1 ≤ patient.interval ∧ patient.acquiredAt.after? patient.interval ≠ none ∧
      sluggish.world.tokens.isCancelled patient.token = false) ∧
      (∃ s xs, Chronicle turn (patient.Sparing 0)
        (System.noteOf (Process.acts turn World.reply?) 0) sluggish
        (patient.calls patientRounds ++ [(4250000000, .ends .ok)]) s ∧
        s.process? 0 = none ∧
        patient.Completed xs (patient.calls patientRounds ++ [(4250000000, .ends .ok)])) ∧
      ∃ l y xs, Watch turn patient.Spares (Process.acts turn World.reply?)
        (patient.post sluggish.world) l y ∧ y.process? = none ∧ patient.Completed xs l ∧
        xs.map (fun x => (x.start, x.finish)) =
          [(1250000000, 3750000000), (3750000000, 6250000000), (6250000000, 8750000000)] := by
  have hinterval : .ofSeconds 1 ≤ patient.interval := by decide
  have hfirst : patient.acquiredAt.after? patient.interval ≠ none := by decide
  have hspared : sluggish.world.tokens.isCancelled patient.token = false := by decide
  have hpace := keeps_pace patient hinterval hfirst hspared
  have hruns : (sluggish.follow? turn (patient.Sparing 0) patientChoices).any
      (fun s => (s.process? 0).isNone) = true := by decide +kernel
  obtain ⟨s, hs, hover⟩ := (Option.any_eq_true _ _).mp hruns
  have hover : s.process? 0 = none := Option.isNone_iff_eq_none.mp hover
  have hacts : sluggish.notes turn (System.noteOf (Process.acts turn World.reply?) 0)
      patientChoices = patient.calls patientRounds ++ [(4250000000, .ends .ok)] := by
    decide +kernel
  have hchronicle : Chronicle turn (patient.Sparing 0)
      (System.noteOf (Process.acts turn World.reply?) 0) sluggish
      (patient.calls patientRounds ++ [(4250000000, .ends .ok)]) s :=
    hacts ▸ .of_follow? patientChoices hs
  have hwatch := watch_of_chronicle (r := patient) (w := sluggish.world) rfl hchronicle
  obtain ⟨xs, hcompleted⟩ := (hpace.1 _ _ hwatch).1 hover
  exact ⟨⟨hinterval, hfirst, hspared⟩, ⟨s, xs, hchronicle, hover, hcompleted⟩,
    hpace.2 (fun _ => .ofNanos 2500000000) (by decide +kernel)⟩

end Leasehold.Lock.Renewing
