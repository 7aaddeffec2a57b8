import Leasehold.Proofs.Pool.Filling
import Leasehold.Proofs.Pool.Selection
import Leasehold.Proofs.Simulation.Performance

/-!
# Making a pool

A pool is made with all of its first resources, or not at all.  If one of them cannot be
made, those made before are destroyed again, in the order in which they were made, and it
does not matter whether that works (`makes_all_or_nothing`).  `Construction` says what may
come of it, and `Building` how far it has come.

The resources come from any supplier: one that answers every job with any resource or any
error, as it likes.  Others leave the pool alone meanwhile, for there is none yet.

A pool with valid settings may still be too large for its queue to have room, and that is
not reported: there is no result then (`noRoom_iff_of_valid`).
-/

namespace Leasehold.Pool

open Simulation

/-! ## Suppliers -/

/-- How a supplier answers the job that it works on. -/
abbrev Supplier := Instant → World → Work → Job.Outcome

/-- The supplier that answers as the supply has settled. -/
def Supplier.settled : Supplier := fun _ _ work => work.outcome

/-- The job that waits to be answered while a pool is made. -/
def Process.job? : Process → Option Work
  | .filling _ _ work | .emptying _ _ work => some work
  | _ => none

/-- A process that makes a pool, with another answer to its job. -/
def Process.answered (answer : Work → Job.Outcome) : Process → Process
  | .filling left made work => .filling left made { work with outcome := answer work }
  | .emptying rest e work => .emptying rest e { work with outcome := answer work }
  | p => p

/-- The turns of processes that make a pool with resources of a supplier. -/
def turnWith (supplier : Supplier) : Behaviour World Process Result := fun now w p =>
  turn now w (p.answered (supplier now w))

theorem turnWith_settled : turnWith .settled = turn := by
  funext now w p
  cases p <;> rfl

/-- What is written down while a pool is made. -/
inductive Event where
  /-- A job was answered. -/
  | answered (outcome : Job.Outcome)
  /-- The making is over. -/
  | returned (r : Result)
deriving DecidableEq

/-- What is written down of the end. -/
def Event.ofTurn : Turn World Process Result → List Event
  | .ends _ r _ _ => [.returned r]
  | .waits _ | .moves .. => []

/-- What is written down of a turn. -/
def events (supplier : Supplier) (now : Instant) (w : World) (p : Process) : List Event :=
  (p.job?.map fun work => .answered (supplier now w work)).toList ++
    Event.ofTurn (turnWith supplier now w p)

/-! ## What comes of making a pool -/

/-- The answers to the jobs that made these resources. -/
def successes (made : List Idle) : List Job.Outcome := made.map fun x => .ok x.id

/-- The jobs that destroy these resources. -/
def disposals (gone : List Idle) : List Job := gone.map fun x => .destroy x.id

/-- What comes of making a pool: the answers to the jobs, the result, the pool and the
jobs. -/
inductive Construction (config : Config) :
    List Job.Outcome → Result → Pool → List Job → Prop where
  /-- All resources could be made, and the pool holds them in that order. -/
  | filled {made : List Idle} :
      made.length = config.initial.toNat →
      Construction config (successes made) .ok
        { config, idle := made, opened := made.length, stats := { created := made.length } }
        (List.replicate made.length .create)
  /-- One could not be made, and those made before were destroyed in that order, whatever
  was answered to that. -/
  | undone {made : List Idle} {e : ResourceError} {answers : List Job.Outcome} :
      made.length < config.initial.toNat → answers.length = made.length →
      Construction config (successes made ++ .error e :: answers) (.failed (.fill e)) { config }
        (List.replicate (made.length + 1) .create ++ disposals made)

theorem Construction.ok_or_fill {config : Config} {answers : List Job.Outcome} {r : Result}
    {p : Pool} {jobs : List Job} (h : Construction config answers r p jobs) :
    r = .ok ∨ ∃ e, r = .failed (.fill e) := by
  cases h with
  | filled => exact .inl rfl
  | undone => exact .inr ⟨_, rfl⟩

/-- How far the making of a pool has come, with the answers so far. -/
inductive Building (config : Config) :
    Process → List Job.Outcome → Pool → List Job → Prop where
  | filling {left : Nat} {made : List Idle} {work : Work} :
      left + made.length + 1 = config.initial.toNat →
      Building config (.filling left made.reverse work) (successes made) { config }
        (List.replicate (made.length + 1) .create)
  | emptying {gone rest : List Idle} {r : Idle} {e : ResourceError} {work : Work}
      {answers : List Job.Outcome} :
      (gone ++ r :: rest).length < config.initial.toNat → answers.length = gone.length →
      Building config (.emptying rest e work)
        (successes (gone ++ r :: rest) ++ .error e :: answers) { config }
        (List.replicate ((gone ++ r :: rest).length + 1) .create ++ disposals (gone ++ [r]))

variable {config : Config} {supplier : Supplier} {now t u due : Instant} {w v : World}
  {p q : Process} {r : Result} {work : Work} {made rest gone : List Idle} {left : Nat}
  {e : ResourceError} {answers : List Job.Outcome} {base jobs : List Job} {l : List Event}
  {y : Post World Process} {records : List Log.Record}

@[simp] theorem successes_append (made rest : List Idle) :
    successes (made ++ rest) = successes made ++ successes rest := List.map_append

@[simp] theorem disposals_append (gone rest : List Idle) :
    disposals (gone ++ rest) = disposals gone ++ disposals rest := List.map_append

/-! ## The turns -/

/-- A job that is not over is waited for. -/
theorem turnWith_undue (hjob : p.job? = some work) (hdue : isDue now work.due? = false) :
    turnWith supplier now w p = .waits work.due? := by
  cases p with
  | filling | emptying =>
    cases hjob
    simp only [turnWith, Process.answered, turn, Supply.turn, hdue, Bool.false_eq_true, if_false,
      Turn.within]
  | _ => cases hjob

theorem turnWith_filling (supplier : Supplier) (w : World) (hdue : isDue now work.due? = true) :
    ∃ records, turnWith supplier now w (.filling left made work) =
      (fillStep w now left made (supplier now w work)).after records := by
  simp only [turnWith, Process.answered, turn, Supply.turn, hdue, if_true, Turn.within]
  exact ⟨_, rfl⟩

theorem turnWith_emptying (supplier : Supplier) (w : World) (hdue : isDue now work.due? = true) :
    ∃ records records', turnWith supplier now w (.emptying rest e work) =
      (empty w now e records rest).after records' := by
  simp only [turnWith, Process.answered, turn, Supply.turn, hdue, if_true, Turn.within]
  exact ⟨_, _, rfl⟩

/-- A supply keeps the jobs that it is given. -/
theorem jobs_give (s : Supply) (now : Instant) {job : Job} (h : job.kind ≠ .check) :
    (s.give now job).2.jobs = s.jobs ++ [job] :=
  jobs_settle s job fun _ hid => absurd (congrArg Job.kind hid) h

/-- What a turn leads to, with the answers up to it, if the supply had the jobs `base`
before. -/
def Builds (config : Config) (base : List Job) (answers : List Job.Outcome) :
    Turn World Process Result → Prop
  | .waits _ => True
  | .moves w q _ => ∃ jobs, w.supply.jobs = base ++ jobs ∧ Building config q answers w.pool jobs
  | .ends w r _ _ =>
      ∃ jobs, w.supply.jobs = base ++ jobs ∧ Construction config answers r w.pool jobs

theorem builds_after {x : Turn World Process Result} :
    Builds config base answers (x.after records) ↔ Builds config base answers x := by
  cases x <;> rfl

section

variable (hpool : w.pool = { config }) (hjobs : w.supply.jobs = base ++ jobs)

include hpool hjobs

/-- A job that is given while a pool is made. -/
theorem builds_await {job : Job} {next : Work → Process} (hcheck : job.kind ≠ .check)
    (hnext : ∀ work, Building config (next work) answers { config } (jobs ++ [job])) :
    Builds config base answers (await w now job next records) := by
  refine ⟨jobs ++ [job], ?_, ?_⟩
  · rw [← List.append_assoc, ← hjobs]
    exact jobs_give w.supply now hcheck
  · show Building config _ answers w.pool _
    rw [hpool]
    exact hnext _

/-- What was made is destroyed, the first of what is left first. -/
theorem builds_empty (hcount : (gone ++ rest).length < config.initial.toNat)
    (hanswers : answers.length = gone.length)
    (hjobs' : jobs = List.replicate ((gone ++ rest).length + 1) .create ++ disposals gone) :
    Builds config base (successes (gone ++ rest) ++ .error e :: answers)
      (empty w now e records rest) := by
  subst hjobs'
  cases rest with
  | nil =>
    rw [List.append_nil] at hcount hjobs ⊢
    refine ⟨_, hjobs, ?_⟩
    rw [hpool]
    exact .undone hcount hanswers
  | cons r rest =>
    show Builds config base _ (await w now (.destroy r.id) (.emptying rest e) records)
    have hcheck : (Job.destroy r.id).kind ≠ .check := Job.Kind.noConfusion
    refine builds_await hpool hjobs hcheck fun work => ?_
    have hnext : disposals (gone ++ [r]) = disposals gone ++ [.destroy r.id] :=
      disposals_append gone [r]
    rw [List.append_assoc, ← hnext]
    exact .emptying hcount hanswers

/-- A resource is put to those made before, or these are destroyed. -/
theorem builds_fillStep (hcount : left + made.length + 1 = config.initial.toNat)
    (hjobs' : jobs = List.replicate (made.length + 1) .create) (outcome : Job.Outcome) :
    Builds config base (successes made ++ [outcome])
      (fillStep w now left made.reverse outcome) := by
  subst hjobs'
  cases outcome with
  | error e =>
    rw [fillStep, List.reverse_reverse]
    show Builds config base (successes ([] ++ made) ++ [.error e]) _
    refine builds_empty hpool hjobs ?_ rfl (by simp [disposals])
    rw [List.nil_append]
    omega
  | ok id =>
    -- The process keeps what was made last first, and the queue is in the order of making.
    let x : Idle := ⟨id, w.face.read now⟩
    have hlength : (made ++ [x]).length = made.length + 1 := List.length_append
    have hreverse : x :: made.reverse = (made ++ [x]).reverse := List.reverse_concat.symm
    have hsuccesses : successes made ++ [.ok id] = successes (made ++ [x]) :=
      (successes_append made [x]).symm
    rw [hsuccesses]
    rw [← hlength] at hjobs
    cases left with
    | zero =>
      show Builds config base _ (filled w (x :: made.reverse))
      rw [hreverse]
      refine ⟨_, hjobs, ?_⟩
      have hfilled : Construction config (successes (made ++ [x])) _ _ _ := .filled (by omega)
      simpa [World.withPool, hpool] using hfilled
    | succ left =>
      show Builds config base _ (await w now .create (.filling left (x :: made.reverse)) [])
      rw [hreverse]
      refine builds_await hpool hjobs (by decide) fun work => ?_
      rw [← List.replicate_succ']
      exact .filling (by omega)

end

/-- What was answered on a turn, and where it leads. -/
theorem Building.builds (h : Building config p answers w.pool jobs)
    (hjobs : w.supply.jobs = base ++ jobs) (supplier : Supplier) (now : Instant) : ∃ outcome,
      events supplier now w p = .answered outcome :: Event.ofTurn (turnWith supplier now w p) ∧
        Builds config base (answers ++ [outcome]) (turnWith supplier now w p) := by
  generalize hpool : w.pool = pool at h
  have hundue : ∀ {work answers}, p.job? = some work → isDue now work.due? = false →
      Builds config base answers (turnWith supplier now w p) := by
    intro work answers hjob hdue
    rw [turnWith_undue hjob hdue]
    trivial
  cases h with
  | @filling left made work hcount =>
    refine ⟨supplier now w work, rfl, ?_⟩
    cases hdue : isDue now work.due? with
    | false => exact hundue rfl hdue
    | true =>
      obtain ⟨records, hturn⟩ := turnWith_filling supplier w hdue
      rw [hturn, builds_after]
      exact builds_fillStep hpool hjobs hcount rfl _
  | @emptying gone rest r e work answers hcount hanswers =>
    refine ⟨supplier now w work, rfl, ?_⟩
    cases hdue : isDue now work.due? with
    | false => exact hundue rfl hdue
    | true =>
      obtain ⟨records, records', hturn⟩ := turnWith_emptying supplier w hdue
      have hsplit : gone ++ r :: rest = gone ++ [r] ++ rest := by simp
      rw [hturn, builds_after, List.append_assoc, List.cons_append]
      rw [hsplit] at hcount hjobs ⊢
      exact builds_empty hpool hjobs hcount (by simp [hanswers]) rfl

/-! ## How the making comes to its end -/

/-- Clocks can read when so many more resources are made and so many destroyed, one after
the other. -/
def InTime (s : Supply) (creates destroys : Nat) (t : Instant) : Prop :=
  t.nanos + creates * (s.latency .create).nanos + destroys * (s.latency .destroy).nanos <
    9223372036854775808000000000

theorem InTime.of_succ_create {s : Supply} {creates destroys : Nat}
    (h : InTime s (creates + 1) destroys t)
    (hu : u.nanos = t.nanos + (s.latency .create).nanos) : InTime s creates destroys u := by
  unfold InTime at *
  rw [Nat.succ_mul] at h
  omega

theorem InTime.of_succ_destroy {s : Supply} {creates destroys : Nat}
    (h : InTime s creates (destroys + 1) t)
    (hu : u.nanos = t.nanos + (s.latency .destroy).nanos) : InTime s creates destroys u := by
  unfold InTime at *
  rw [Nat.succ_mul] at h
  omega

theorem InTime.create_lt {s : Supply} {creates destroys : Nat}
    (h : InTime s (creates + 1) destroys t) :
    t.nanos + (s.latency .create).nanos < 9223372036854775808000000000 := by
  rw [InTime, Nat.succ_mul] at h
  omega

theorem InTime.destroy_lt {s : Supply} {creates destroys : Nat}
    (h : InTime s creates (destroys + 1) t) :
    t.nanos + (s.latency .destroy).nanos < 9223372036854775808000000000 := by
  rw [InTime, Nat.succ_mul] at h
  omega

theorem InTime.mono {s : Supply} {creates creates' destroys destroys' : Nat}
    (h : InTime s creates destroys t) (hcreates : creates' ≤ creates)
    (hdestroys : destroys' ≤ destroys) : InTime s creates' destroys' t := by
  unfold InTime at *
  have hcreate := Nat.mul_le_mul_right (s.latency .create).nanos hcreates
  have hdestroy := Nat.mul_le_mul_right (s.latency .destroy).nanos hdestroys
  omega

theorem InTime.congr {s s' : Supply} {creates destroys : Nat} (h : InTime s creates destroys t)
    (hlatency : s'.latency = s.latency) : InTime s' creates destroys t := by
  rwa [InTime, hlatency]

/-- What completes when a job is over completes when it is not. -/
theorem completes_of_due (hjob : p.job? = some work) (hdue : work.due? = some due)
    (h : ∀ u, isDue u work.due? = true → u.nanos = max t.nanos due.nanos →
      ∃ u' v r, Completes (turnWith supplier) u w p u' v r) :
    ∃ u' v r, Completes (turnWith supplier) t w p u' v r := by
  by_cases hle : due ≤ t
  · exact h t (by rw [hdue]; exact decide_eq_true hle) (Nat.max_eq_left hle).symm
  · have hlt : t < due := Nat.lt_of_not_le hle
    have hwaits : turnWith supplier t w p = .waits (some due) := by
      rw [turnWith_undue hjob (by rw [hdue]; exact decide_eq_false hle), hdue]
    obtain ⟨u', v, r, hrest⟩ := h due (by rw [hdue]; exact decide_eq_true (Nat.le_refl _))
      (Nat.max_eq_right (Nat.le_of_lt hlt)).symm
    exact ⟨u', v, r, .waits hwaits (Nat.le_of_lt hlt) hrest⟩

theorem due?_give_eq (s : Supply) (job : Job) :
    (s.give t job).1.due? = t.after? (s.latency job.kind) := by
  simp only [Supply.give]
  rw [(settle_keeps s job).2]

/-- A process that gives a job completes if it does when the job is over. -/
theorem leads_await {job : Job} {next : Work → Process}
    (hjob : ∀ work, (next work).job? = some work)
    (hread : t.nanos + (w.supply.latency job.kind).nanos < 9223372036854775808000000000)
    (h : ∀ u work w', u.nanos = t.nanos + (w.supply.latency job.kind).nanos →
      isDue u work.due? = true → w'.supply.latency = w.supply.latency →
      ∃ u' v r, Completes (turnWith supplier) u w' (next work) u' v r) :
    ∃ u' v r, (await w t job next records).Leads (turnWith supplier) t u' v r := by
  have hdue : (w.supply.give t job).1.due? =
      some ⟨t.nanos + (w.supply.latency job.kind).nanos, hread⟩ := by
    rw [due?_give_eq, Instant.after?_of_lt hread]
  refine completes_of_due (hjob _) hdue fun u hover hu => ?_
  exact h u _ _ (hu.trans (Nat.max_eq_right (Nat.le_add_right _ _))) hover
    (settle_keeps w.supply job).2

theorem completes_filling (hover : isDue t work.due? = true)
    (h : ∃ u v r, (fillStep w t left made (supplier t w work)).Leads (turnWith supplier) t u v r) :
    ∃ u v r, Completes (turnWith supplier) t w (.filling left made work) u v r := by
  obtain ⟨u, v, r, hleads⟩ := h
  obtain ⟨_, hturn⟩ := turnWith_filling supplier w hover
  refine ⟨u, v, r, Turn.Leads.completes ?_⟩
  rw [hturn]
  exact Turn.leads_after.mpr hleads

theorem completes_emptying (hover : isDue t work.due? = true)
    (h : ∀ records,
      ∃ u v r, (empty w t e records rest).Leads (turnWith supplier) t u v r) :
    ∃ u v r, Completes (turnWith supplier) t w (.emptying rest e work) u v r := by
  obtain ⟨records, _, hturn⟩ := turnWith_emptying supplier w hover
  obtain ⟨u, v, r, hleads⟩ := h records
  refine ⟨u, v, r, Turn.Leads.completes ?_⟩
  rw [hturn]
  exact Turn.leads_after.mpr hleads

/-- What was made can be destroyed. -/
theorem leads_empty (h : InTime w.supply 0 rest.length t) :
    ∃ u v r, (empty w t e records rest).Leads (turnWith supplier) t u v r := by
  induction rest generalizing t w records with
  | nil => exact ⟨t, w, _, rfl, rfl, rfl⟩
  | cons r rest ih =>
    show ∃ u v r', (await w t (.destroy r.id) (.emptying rest e) records).Leads _ t u v r'
    refine leads_await (fun _ => rfl) h.destroy_lt fun u work w' hu hover hlatency => ?_
    have hrest : InTime w'.supply 0 rest.length u := (h.of_succ_destroy hu).congr hlatency
    exact completes_emptying hover fun _ => ih hrest

/-- More resources can be made, or what was made can be destroyed. -/
theorem leads_fillStep (h : InTime w.supply left (made.length + left) t) (outcome : Job.Outcome) :
    ∃ u v r, (fillStep w t left made outcome).Leads (turnWith supplier) t u v r := by
  induction left generalizing t w made outcome with
  | zero =>
    cases outcome with
    | error e =>
      rw [← List.length_reverse] at h
      exact leads_empty h
    | ok id => exact ⟨t, _, _, rfl, rfl, rfl⟩
  | succ left ih =>
    cases outcome with
    | error e =>
      refine leads_empty (h.mono (Nat.zero_le _) ?_)
      rw [List.length_reverse]
      exact Nat.le_add_right _ _
    | ok id =>
      let x : Idle := ⟨id, w.face.read t⟩
      show ∃ u v r, (await w t .create (.filling left (x :: made)) []).Leads _ t u v r
      refine leads_await (fun _ => rfl) h.create_lt fun u work w' hu hover hlatency => ?_
      have hrest : InTime w'.supply left ((x :: made).length + left) u := by
        have hlength : (x :: made).length + left = made.length + (left + 1) := by
          rw [List.length_cons, Nat.add_right_comm, Nat.add_assoc]
        rw [hlength]
        exact (h.of_succ_create hu).congr hlatency
      exact completes_filling hover (ih hrest _)

/-- How many more resources may have to be made and destroyed. -/
def Process.ahead : Process → Nat × Nat
  | .filling left made _ => (left, made.length + left)
  | .emptying rest _ _ => (0, rest.length)
  | _ => (0, 0)

/-- The making of a pool comes to its end, if clocks can read when. -/
theorem completes_of_inTime (supplier : Supplier) (hjob : p.job? = some work)
    (hdue : work.due? = some due)
    (h : ∀ u, u.nanos = max t.nanos due.nanos → InTime w.supply p.ahead.1 p.ahead.2 u) :
    ∃ u v r, Completes (turnWith supplier) t w p u v r := by
  refine completes_of_due hjob hdue fun u hover hu => ?_
  have htime := h u hu
  cases p with
  | filling left made work' =>
    cases hjob
    exact completes_filling hover (leads_fillStep htime _)
  | emptying rest e work' =>
    cases hjob
    exact completes_emptying hover fun _ => leads_empty htime
  | _ => cases hjob

/-! ## Making a pool among others -/

/-- What holds while a pool is made, and when it was, if the supply had the jobs `base`
before. -/
def Making (config : Config) (base : List Job) (l : List Event) (y : Post World Process) : Prop :=
  ∃ answers jobs, y.world.supply.jobs = base ++ jobs ∧
    (y.process? = none → ∃ r, l = answers.map .answered ++ [.returned r] ∧
      Construction config answers r y.world.pool jobs) ∧
    ∀ q, y.process? = some q →
      l = answers.map .answered ∧ Building config q answers y.world.pool jobs

/-- What holds while a pool is made goes on to hold. -/
theorem making_of_watch (hjobs : w.supply.jobs = base ++ jobs)
    (hbuilding : Building config p [] w.pool jobs)
    (h : Watch (turnWith supplier) Leaves (events supplier) ⟨t, w, some p⟩ l y) :
    Making config base l y := by
  refine h.preserves (I := Making config base) ?_ ?_ ?_ ?_ ?_
  -- A turn adds its answer; others and the lapse of time change nothing of what is said here.
  · rintro l t w q w' q' records ⟨answers, jobs, hjobs, -, hgoes⟩ hmoves
    obtain ⟨rfl, hbuilding⟩ := hgoes q rfl
    obtain ⟨outcome, hevents, hbuilds⟩ := hbuilding.builds hjobs supplier t
    rw [hmoves] at hevents hbuilds
    obtain ⟨jobs, hjobs, hbuilding⟩ := hbuilds
    refine ⟨answers ++ [outcome], jobs, hjobs, nofun, ?_⟩
    rintro _ ⟨⟩
    refine ⟨?_, hbuilding⟩
    rw [hevents, List.map_append]
    rfl
  · rintro l t w q w' r started records ⟨answers, jobs, hjobs, -, hgoes⟩ hends
    obtain ⟨rfl, hbuilding⟩ := hgoes q rfl
    obtain ⟨outcome, hevents, hbuilds⟩ := hbuilding.builds hjobs supplier t
    rw [hends] at hevents hbuilds
    obtain ⟨jobs, hjobs, hconstruction⟩ := hbuilds
    refine ⟨answers ++ [outcome], jobs, hjobs, fun _ => ⟨r, ?_, hconstruction⟩, nofun⟩
    rw [hevents, List.map_append, List.append_assoc]
    rfl
  · rintro l t w q? w' ⟨answers, jobs, hjobs, hover, hgoes⟩ hleaves
    refine ⟨answers, jobs, hleaves.jobs.trans hjobs, ?_, ?_⟩
    · rw [hleaves.pool]
      exact hover
    · rw [hleaves.pool]
      exact hgoes
  · rintro l t w q? t' hmaking - -
    exact hmaking
  · refine ⟨[], jobs, hjobs, nofun, ?_⟩
    rintro _ ⟨⟩
    exact ⟨rfl, hbuilding⟩

/-- A making that completes is watched to its end, and its result is written down last. -/
theorem watch_of_completes (h : Completes (turnWith supplier) t w p u v r)
    (others : Post World Process → World → Prop) :
    ∃ l, Watch (turnWith supplier) others (events supplier) ⟨t, w, some p⟩ (l ++ [.returned r])
      ⟨u, v, none⟩ := by
  obtain ⟨l, w', q, started, records, hends, hwatch⟩ := h.watch others (events supplier)
  have hlast : events supplier u w' q =
      (q.job?.map fun work => .answered (supplier u w' work)).toList ++ [.returned r] := by
    rw [events, hends]
    rfl
  rw [hlast, ← List.append_assoc] at hwatch
  exact ⟨_, hwatch⟩

theorem Building.exists_job (h : Building config p answers w.pool jobs) :
    ∃ work, p.job? = some work := by
  generalize w.pool = pool at h
  cases h with
  | filling | emptying => exact ⟨_, rfl⟩

/-- The making of a pool can come to its end. -/
theorem Building.ends (h : Building config p answers w.pool jobs)
    (hdue : ∀ work, p.job? = some work → work.due? ≠ none) (t : Instant) :
    ∃ l z, Watch (turnWith supplier) Hastens (events supplier) ⟨t, w, some p⟩ l z ∧
      z.process? = none := by
  obtain ⟨work, hjob⟩ := h.exists_job
  obtain ⟨due, hdue⟩ := Option.ne_none_iff_exists'.mp (hdue work hjob)
  have htime : ∀ u : Instant, u.nanos = max t.nanos due.nanos →
      InTime w.hastened.supply p.ahead.1 p.ahead.2 u := fun u _ => u.nanos_lt
  obtain ⟨u, v, r, hcompletes⟩ := completes_of_inTime supplier hjob hdue htime
  obtain ⟨l, hrest⟩ := watch_of_completes hcompletes Hastens
  have hfirst : Watch (turnWith supplier) Hastens (events supplier) ⟨t, w, some p⟩ []
      ⟨t, w.hastened, some p⟩ := Watch.refl.changes ⟨_, rfl⟩
  exact ⟨_, _, hfirst.trans hrest, rfl⟩

theorem Building.construction (h : Building config p [] w.pool jobs)
    (hjobs : w.supply.jobs = base ++ jobs)
    (hcompletes : Completes (turnWith supplier) t w p u v r) :
    ∃ answers jobs, Construction config answers r v.pool jobs := by
  obtain ⟨l, hwatch⟩ := watch_of_completes hcompletes Leaves
  obtain ⟨answers, jobs, -, hover, -⟩ := making_of_watch hjobs h hwatch
  obtain ⟨r', hl, hconstruction⟩ := hover rfl
  obtain ⟨-, hresult⟩ := List.append_inj' hl rfl
  cases hresult
  exact ⟨answers, jobs, hconstruction⟩

/-- What comes of making a pool that is made from here on, if the supply had the jobs
`base` before: when it is over, answers, result, pool and jobs go together, and until then
it can come to its end. -/
def Makes (config : Config) (base : List Job) (supplier : Supplier) (x : Post World Process) :
    Prop :=
  ∀ l y, Watch (turnWith supplier) Leaves (events supplier) x l y →
    (y.process? = none → ∃ answers r jobs, l = answers.map .answered ++ [.returned r] ∧
      Construction config answers r y.world.pool jobs ∧ y.world.supply.jobs = base ++ jobs) ∧
    ∀ q, y.process? = some q → (∀ work, q.job? = some work → work.due? ≠ none) →
      ∃ l' z, Watch (turnWith supplier) Hastens (events supplier) y l' z ∧ z.process? = none

theorem Building.makes (h : Building config p [] w.pool jobs)
    (hjobs : w.supply.jobs = base ++ jobs) (t : Instant) :
    Makes config base supplier ⟨t, w, some p⟩ := by
  intro l y hwatch
  obtain ⟨answers, jobs, hjobs, hover, hgoes⟩ := making_of_watch hjobs h hwatch
  refine ⟨fun hnone => ?_, fun q hq hdue => ?_⟩
  · obtain ⟨r, hl, hconstruction⟩ := hover hnone
    exact ⟨answers, r, jobs, hl, hconstruction, hjobs⟩
  · obtain ⟨t, w, q?⟩ := y
    cases hq
    exact (hgoes q rfl).2.ends hdue t

/-! ## Beginning to make a pool -/

/-- The job of the first resource. -/
def World.first (w : World) (now : Instant) : Work := (w.supply.give now .create).1

/-- The world when the first resource is made. -/
def World.begun (w : World) (now : Instant) : World := w.withSupply (w.supply.give now .create).2

/-- The process that makes a pool with valid settings, when it was begun. -/
def World.maker (w : World) (now : Instant) : Process :=
  .filling (w.pool.config.initial.toNat - 1) [] (w.first now)

section

variable (hvalid : w.pool.config.fault? = none)

include hvalid

theorem fill_eq (now : Instant) : fill w now = .moves (w.begun now) (w.maker now) [] := by
  have hpos := Scenario.Config.initial_pos hvalid
  rw [fill, World.maker]
  split
  next hzero => omega
  next n hn =>
    rw [hn]
    rfl

theorem building_begun (now : Instant) (hpool : w.pool = { config }) :
    Building config (w.maker now) [] (w.begun now).pool [.create] := by
  have hpos := Scenario.Config.initial_pos hvalid
  show Building config _ [] w.pool _
  rw [World.maker]
  rw [hpool] at hpos ⊢
  show Building config (.filling _ ([] : List Idle).reverse _) (successes []) _
    (List.replicate (([] : List Idle).length + 1) .create)
  exact .filling (Nat.sub_add_cancel hpos)

theorem completes_begun (supplier : Supplier)
    (htime : InTime w.supply w.pool.config.initial.toNat (w.pool.config.initial.toNat - 1) now) :
    ∃ u v r, Completes (turnWith supplier) now (w.begun now) (w.maker now) u v r := by
  obtain ⟨left, hleft⟩ := Nat.exists_eq_add_of_le' (Scenario.Config.initial_pos hvalid)
  rw [World.maker, hleft, Nat.add_sub_cancel]
  rw [hleft, Nat.add_sub_cancel] at htime
  show ∃ u v r, (await w now .create (.filling left []) []).Leads (turnWith supplier) now u v r
  refine leads_await (fun _ => rfl) htime.create_lt fun u work w' hu hover hlatency => ?_
  have hrest : InTime w'.supply left (([] : List Idle).length + left) u := by
    rw [List.length_nil, Nat.zero_add]
    exact (htime.of_succ_create hu).congr hlatency
  exact completes_filling hover (leads_fillStep hrest _)

end

theorem jobs_begun : (w.begun now).supply.jobs = w.supply.jobs ++ [.create] :=
  jobs_give w.supply now (show Job.create.kind ≠ .check by decide)

namespace Scenario

/-! ## Operations in scenarios -/

/-- An operation starts no other processes. -/
theorem leaves_operationTurn (w : World) (x : Turn Pool.World Pool.Process Result) :
    Leaves (fun _ _ _ => True) (operationTurn w x) := by
  cases x with
  | waits | moves => trivial
  | ends => exact ⟨rfl, trivial⟩

/-- Nothing in a scenario starts other processes. -/
theorem leaves_turn (now : Instant) (w : World) (p : Process) :
    Leaves (fun _ _ _ => True) (turn now w p) := by
  cases p with
  | action a =>
    cases a with
    | put id forged | close id forged =>
      rw [turn, begin]
      split
      · exact ⟨rfl, trivial⟩
      · exact leaves_operationTurn _ _
    | release => exact leaves_operationTurn w _
    | get | check | sleep => trivial
    | _ => exact ⟨rfl, trivial⟩
  | operation p => exact leaves_operationTurn w _
  | checking work =>
    rw [turn, Supply.turn]
    split
    · exact ⟨rfl, trivial⟩
    · trivial
  | asleep due? =>
    rw [turn]
    split
    · exact ⟨rfl, trivial⟩
    · trivial

/-- An operation on the pool completes as an operation of a scenario. -/
theorem completes_operation {p : Pool.Process} {w v : Pool.World} {r : Result}
    (h : Completes Pool.turn t w p u v r) (world : World) (hw : world.inner = w) :
    Completes turn t world (.operation p) u ((world.withInner v).receive r) (.result r) := by
  induction h generalizing world with
  | ends hends =>
    subst hw
    refine Turn.Leads.completes ?_
    rw [turn, hends]
    exact ⟨rfl, rfl, rfl⟩
  | @moves t w p w' q records u v r hmoves _ ih =>
    subst hw
    refine Turn.Leads.completes ?_
    rw [turn, hmoves]
    exact ih (world.withInner w') rfl
  | waits hwaits hle _ ih =>
    subst hw
    refine .waits ?_ hle (ih _ rfl)
    rw [turn, hwaits]
    rfl

/-- What comes of making a pool that was filled, or was not. -/
def Made.ofResult : Result → Made
  | .failed e => .failed e
  | _ => .pool

section

variable (trial : Trial) {fault : Config.Fault}

/-- Settings that are not valid are refused before anything is done. -/
theorem make_of_fault (h : trial.machine.world.inner.pool.config.fault? = some fault)
    (limit : Nat) : trial.make limit = (.failed (.config fault), trial) := by
  rw [Trial.make]
  simp only [h]

/-- The machine when the first resource is made. -/
def Trial.begun : Machine World Process Outcome :=
  { trial.machine with
    world := trial.machine.world.withInner (trial.machine.world.inner.begun trial.machine.now) }

/-- What a trial makes of the operation that makes the pool. -/
def Trial.conclude : Machine World Process Outcome × Option Outcome → Made × Trial
  | (machine, some (.result (.failed e))) => (.failed e, { trial with machine })
  | (machine, _) => (.pool, { trial with machine, start := machine.now })

section

variable (hvalid : trial.machine.world.inner.pool.config.fault? = none)
  (hroom : hasRoom trial.machine.world.inner.pool.capacity = true)

include hvalid hroom

theorem make_eq_conclude (limit : Nat) : trial.make limit =
    trial.conclude (trial.begun.perform turn limit limit
      (.operation (trial.machine.world.inner.maker trial.machine.now))) := by
  rw [Trial.make]
  simp only [hvalid, hroom, if_true, fill_eq hvalid, operationTurn, Turn.within, List.append_nil]
  rfl

/-- A pool is made as the operation that makes it completes. -/
theorem make_of_completes (hidle : trial.machine.tasks = []) {v : Pool.World} {r : Result}
    (h : Completes Pool.turn trial.machine.now (trial.machine.world.inner.begun trial.machine.now)
      (trial.machine.world.inner.maker trial.machine.now) u v r) :
    ∃ enough trial', (∀ limit, enough ≤ limit → trial.make limit = (.ofResult r, trial')) ∧
      trial'.machine.now = u ∧ trial'.machine.world.inner = v := by
  have hcompletes := completes_operation h trial.begun.world rfl
  have hstarts : ∀ now w p w' (out : Outcome) started records,
      turn now w p = .ends w' out started records → started = [] := by
    intro now w p w' out started records hends
    have hleaves := leaves_turn now w p
    rw [hends] at hleaves
    exact hleaves.1
  obtain ⟨enough, log, hperform⟩ := trial.begun.perform_of_completes hcompletes hstarts hidle
  let m : Machine World Process Outcome :=
    { trial.begun with now := u, world := (trial.begun.world.withInner v).receive r, log }
  have hmake : ∀ limit, enough ≤ limit →
      trial.make limit = trial.conclude (m, some (.result r)) := by
    intro limit hlimit
    rw [make_eq_conclude trial hvalid hroom, hperform limit hlimit]
  cases r with
  | failed e => exact ⟨enough, _, hmake, rfl, rfl⟩
  | ok | resource => exact ⟨enough, _, hmake, rfl, rfl⟩

/-- The making of a pool comes to its end, if clocks can read when, with the result that
is written down last. -/
theorem exists_made (hidle : trial.machine.tasks = [])
    (htime : InTime trial.machine.world.inner.supply
      trial.machine.world.inner.pool.config.initial.toNat
      (trial.machine.world.inner.pool.config.initial.toNat - 1) trial.machine.now) :
    ∃ enough r trial' l, (∀ limit, enough ≤ limit → trial.make limit = (.ofResult r, trial')) ∧
      Watch Pool.turn Pool.Leaves (events .settled)
        ⟨trial.machine.now, trial.machine.world.inner.begun trial.machine.now,
          some (trial.machine.world.inner.maker trial.machine.now)⟩ (l ++ [.returned r])
        ⟨trial'.machine.now, trial'.machine.world.inner, none⟩ := by
  obtain ⟨u, v, r, hcompletes⟩ := completes_begun hvalid .settled htime
  obtain ⟨l, hwatch⟩ := watch_of_completes hcompletes Pool.Leaves
  rw [turnWith_settled] at hcompletes hwatch
  obtain ⟨enough, trial', hmake, rfl, rfl⟩ :=
    make_of_completes trial hvalid hroom hidle hcompletes
  exact ⟨enough, r, trial', _, hmake, hwatch⟩

end

end

/-- **A pool is made with all of its first resources, or not at all**, whoever supplies
them.

Settings that are not valid are refused, and nothing is done.  Otherwise the supplier is
asked for the first resource, and when the making is over, what the supplier answered, the
result, the pool and the jobs go together as `Construction` says: either every answer was a
resource, and the pool holds them in the order in which they came, or some answer was an
error, which is the result, and the resources of the answers before it were destroyed in
their order, whatever was answered to that.

A making that is not over can come to its end, if clocks can read when the job is over that
it waits for.  A supply that nobody else uses brings it to its end, if clocks can read when
all jobs are over. -/
theorem makes_all_or_nothing (trial : Trial) {config : Config}
    (hpool : trial.machine.world.inner.pool = { config }) :
    (∀ fault, config.fault? = some fault →
      ∀ limit, trial.make limit = (.failed (.config fault), trial)) ∧
    (config.fault? = none → hasRoom config.max.toNat = true → ∃ w p,
      Pool.fill trial.machine.world.inner trial.machine.now = .moves w p [] ∧
      (∀ supplier, Makes config trial.machine.world.inner.supply.jobs supplier
        ⟨trial.machine.now, w, some p⟩) ∧
      (trial.machine.tasks = [] →
        InTime trial.machine.world.inner.supply config.initial.toNat (config.initial.toNat - 1)
          trial.machine.now →
        ∃ enough r trial' l,
          (∀ limit, enough ≤ limit → trial.make limit = (.ofResult r, trial')) ∧
            Watch Pool.turn Pool.Leaves (events .settled) ⟨trial.machine.now, w, some p⟩
              (l ++ [.returned r]) ⟨trial'.machine.now, trial'.machine.world.inner, none⟩)) := by
  have hconfig : trial.machine.world.inner.pool.config = config := by rw [hpool]
  refine ⟨fun fault hfault limit => make_of_fault trial (hconfig ▸ hfault) limit,
    fun hvalid hroom => ?_⟩
  rw [← hconfig] at hvalid
  refine ⟨_, _, fill_eq hvalid _, fun supplier => ?_, fun hidle htime => ?_⟩
  · exact (building_begun hvalid _ hpool).makes jobs_begun _
  · rw [← hconfig] at hroom htime
    exact exists_made trial hvalid hroom hidle htime

/-- A pool is to be made with three resources.  Two can be made and not destroyed, and
every job takes seven seconds. -/
def unlucky : Trial where
  machine := {
    world := {
      inner := {
        pool := { config := { initial := 3, max := 4 } }
        supply := {
          createsLeft? := some 2, destroyFails := true, latency := fun _ => .ofSeconds 7 } } } }

/-- The making of the pool, when it was begun. -/
def unluckyMaking : System Pool.World Pool.Process where
  now := .epoch
  world := unlucky.machine.world.inner.begun .epoch
  processes := [some (unlucky.machine.world.inner.maker .epoch)]

/-- The jobs take their time, one after the other. -/
def unluckyChoices : List (Choice Pool.Process) :=
  [.pass { nanos := 7000000000 }, .turn 0, .pass { nanos := 14000000000 }, .turn 0,
    .pass { nanos := 21000000000 }, .turn 0, .pass { nanos := 28000000000 }, .turn 0,
    .pass { nanos := 35000000000 }, .turn 0]

/-- What the supply answers. -/
def unluckyAnswers : List Job.Outcome :=
  [.ok 1, .ok 2, .error (.create "fake create failure"),
    .error (.destroy "fake destroy failure for 1"), .error (.destroy "fake destroy failure for 2")]

/-- What comes of it. -/
def unluckyResult : Result := .failed (.fill (.create "fake create failure"))

/-- A pool that cannot hold what it is to be made with. -/
def overfull : Trial where
  machine := {
    world := { inner := { pool := { config := { initial := 3, max := 2 } }, supply := {} } } }

theorem makes_all_or_nothing_unlucky :
    overfull.make 9 = (.failed (.config (.exceeds 3 2)), overfull) ∧
    (∃ s jobs, Chronicle Pool.turn (Undisturbed 0) (System.noteOf (events .settled) 0)
        unluckyMaking (unluckyAnswers.map .answered ++ [.returned unluckyResult]) s ∧
      s.process? 0 = none ∧
      Construction { initial := 3, max := 4 } unluckyAnswers unluckyResult s.world.pool jobs ∧
      jobs = [.create, .create, .create, .destroy 1, .destroy 2]) ∧
    ∃ enough r trial', ∀ limit, enough ≤ limit → unlucky.make limit = (.ofResult r, trial') := by
  have hrefused := (makes_all_or_nothing overfull rfl).1 _ rfl 9
  obtain ⟨w, p, hfill, hmakes, hperforms⟩ :=
    (makes_all_or_nothing unlucky rfl).2 (by decide) (by decide)
  obtain ⟨enough, r, trial', -, hmake, -⟩ := hperforms rfl (by unfold InTime; decide)
  have hruns : (unluckyMaking.follow? Pool.turn (Undisturbed 0) unluckyChoices).any (fun s =>
      decide (s.process? 0).isNone && decide (s.world.supply.jobs =
        [.create, .create, .create, .destroy 1, .destroy 2])) = true := by
    decide +kernel
  obtain ⟨s, hs, hfacts⟩ := (Option.any_eq_true _ _).mp hruns
  simp only [Bool.and_eq_true, decide_eq_true_eq] at hfacts
  obtain ⟨hover, hgiven⟩ := hfacts
  have hover : s.process? 0 = none := Option.isNone_iff_eq_none.mp hover
  have hevents : unluckyMaking.notes Pool.turn (System.noteOf (events .settled) 0)
      unluckyChoices = unluckyAnswers.map .answered ++ [.returned unluckyResult] := by
    decide +kernel
  have hchronicle : Chronicle Pool.turn (Undisturbed 0) (System.noteOf (events .settled) 0)
      unluckyMaking (unluckyAnswers.map .answered ++ [.returned unluckyResult]) s :=
    hevents ▸ .of_follow? unluckyChoices hs
  have hwatch : Watch Pool.turn Pool.Leaves (events .settled) (unluckyMaking.post 0) _
      (s.post 0) :=
    .of_chronicle (fun hrule => hrule.1) (fun _ hrule hother => hrule.2 hother) hchronicle
      (by decide)
  have hbegun : unluckyMaking.post 0 = ⟨unlucky.machine.now, w, some p⟩ := by
    cases hfill
    rfl
  rw [hbegun, ← turnWith_settled] at hwatch
  obtain ⟨answers, r', jobs, hl, hconstruction, hjobs⟩ := (hmakes .settled _ _ hwatch).1 hover
  obtain ⟨hanswers, hresult⟩ := List.append_inj' hl rfl
  obtain rfl := List.map_injective_iff.mpr (fun _ _ => Event.answered.inj) hanswers
  cases hresult
  exact ⟨hrefused, ⟨s, jobs, hchronicle, hover, hconstruction, hjobs.symm.trans hgiven⟩,
    enough, r, trial', hmake⟩

/-! ## The room for the queue -/

theorem hasRoom_iff (places : Nat) : hasRoom places = true ↔ places ≤ 384307168202282325 := by
  rw [hasRoom, decide_eq_true_iff, bytesPerPlace]
  omega

theorem conclude_ne_noRoom (trial : Trial) (m : Machine World Process Outcome)
    (o? : Option Outcome) : (trial.conclude (m, o?)).1 ≠ .noRoom := by
  rw [Trial.conclude.eq_def]
  split <;> exact nofun

/-- There is no room for the queue exactly if it is too long. -/
theorem make_eq_noRoom_iff (trial : Trial) (limit : Nat) :
    (trial.make limit).1 = .noRoom ↔ trial.machine.world.inner.pool.config.fault? = none ∧
      384307168202282325 < trial.machine.world.inner.pool.capacity := by
  cases hfault : trial.machine.world.inner.pool.config.fault? with
  | some fault =>
    rw [make_of_fault trial hfault]
    exact ⟨nofun, nofun⟩
  | none =>
    cases hroom : hasRoom trial.machine.world.inner.pool.capacity with
    | true =>
      have hle := (hasRoom_iff _).mp hroom
      rw [make_eq_conclude trial hfault hroom]
      exact ⟨fun h => absurd h (conclude_ne_noRoom trial _ _), fun h => absurd h.2 (by omega)⟩
    | false =>
      have hlt : ¬ _ ≤ _ := mt (hasRoom_iff _).mpr (Bool.eq_false_iff.mp hroom)
      rw [Trial.make]
      simp only [hfault, hroom]
      exact ⟨fun _ => ⟨trivial, by omega⟩, fun _ => rfl⟩

/-- **A pool with valid settings is made or refused unless its queue is too long**: there is
no room for a queue of more than 384307168202282325 places, which valid settings may ask
for.  A shorter one has room, and then the making comes to its end with a pool or with the
error of a resource, whoever supplies them, if clocks can read when. -/
theorem noRoom_iff_of_valid (trial : Trial) {config : Config}
    (hpool : trial.machine.world.inner.pool = { config }) (hvalid : config.fault? = none) :
    (∀ limit, (trial.make limit).1 = .noRoom ↔ 384307168202282325 < config.max.toNat) ∧
    (config.max.toNat ≤ 384307168202282325 →
      InTime trial.machine.world.inner.supply config.initial.toNat (config.initial.toNat - 1)
        trial.machine.now →
      (∃ w p, Pool.fill trial.machine.world.inner trial.machine.now = .moves w p [] ∧
        ∀ supplier, ∃ u v r, Completes (turnWith supplier) trial.machine.now w p u v r ∧
          (r = .ok ∨ ∃ e, r = .failed (.fill e))) ∧
      (trial.machine.tasks = [] → ∃ enough trial', ∀ limit, enough ≤ limit →
        trial.make limit = (.pool, trial') ∨
          ∃ e, trial.make limit = (.failed (.fill e), trial'))) := by
  have hconfig : trial.machine.world.inner.pool.config = config := by rw [hpool]
  have hbuilding := building_begun (hconfig ▸ hvalid) trial.machine.now hpool
  refine ⟨fun limit => ?_, fun hle htime => ?_⟩
  · rw [make_eq_noRoom_iff, capacity, hconfig]
    exact and_iff_right hvalid
  have hroom := (hasRoom_iff _).mpr hle
  rw [← hconfig] at hvalid hroom htime
  refine ⟨⟨_, _, fill_eq hvalid _, fun supplier => ?_⟩, fun hidle => ?_⟩
  · obtain ⟨u, v, r, hcompletes⟩ := completes_begun hvalid supplier htime
    obtain ⟨answers, jobs, hconstruction⟩ := hbuilding.construction jobs_begun hcompletes
    exact ⟨u, v, r, hcompletes, hconstruction.ok_or_fill⟩
  · obtain ⟨u, v, r, hcompletes⟩ := completes_begun hvalid .settled htime
    obtain ⟨answers, jobs, hconstruction⟩ := hbuilding.construction jobs_begun hcompletes
    rw [turnWith_settled] at hcompletes
    obtain ⟨enough, trial', hmake, -, -⟩ :=
      make_of_completes trial hvalid hroom hidle hcompletes
    refine ⟨enough, trial', fun limit hlimit => ?_⟩
    rw [hmake limit hlimit]
    obtain rfl | ⟨e, rfl⟩ := hconstruction.ok_or_fill
    · exact .inl rfl
    · exact .inr ⟨e, rfl⟩

/-- A pool that keeps whatever comes back. -/
def unbounded : Trial where
  machine := {
    world := {
      inner := { pool := { config := { max := 18446744073709551615 } }, supply := {} } } }

theorem noRoom_iff_of_valid_unbounded :
    (unbounded.make 9).1 = .noRoom ∧
      ∃ enough trial', ∀ limit, enough ≤ limit → unlucky.make limit = (.pool, trial') ∨
        ∃ e, unlucky.make limit = (.failed (.fill e), trial') := by
  have hpanics := (noRoom_iff_of_valid unbounded rfl (by decide)).1 9
  have hmakes := (noRoom_iff_of_valid unlucky rfl (by decide)).2 (by decide)
    (by unfold InTime; decide)
  exact ⟨hpanics.mpr (by decide), hmakes.2 rfl⟩

end Scenario

end Leasehold.Pool
