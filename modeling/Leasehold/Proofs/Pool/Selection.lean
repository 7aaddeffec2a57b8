import Leasehold.Proofs.Pool.Abandonment
import Leasehold.Proofs.Simulation.Watch

/-!
# Which resource a get hands out

Somebody who wants a resource looks at the idle ones from the front.  A resource is spurned
if it was idle for too long, or if the supply looks at it and finds it unsound.  Spurned
resources are destroyed one after the other, up to the first that is not, which is handed
out.  If all are spurned, the policy decides whether a new one is made
(`get_selects`).

The get is watched among others who leave the pool alone and give the supply no jobs.
They may let jobs fail or not, set the clock, and make jobs as slow as they like, so
resources are spurned in any pattern.
-/

namespace Leasehold.Pool

open Simulation

/-! ## What a get comes upon -/

/-- A look at an idle resource. -/
structure Look where
  /-- The resource. -/
  entry : Idle
  /-- The reading of the clock of the pool. -/
  reading : Instant
  /-- What would come of checking the resource. -/
  outcome : Job.Outcome
deriving DecidableEq

/-- What is written down of a get. -/
inductive Notice where
  /-- The get looks at the resource in front of the queue. -/
  | looks (x : Look)
  /-- The queue is empty, and a new resource is to be made, with the given outcome. -/
  | makes (outcome : Job.Outcome)
  /-- The get is over. -/
  | ends (r : Result)
deriving DecidableEq

/-- What a get comes upon when it looks at the queue. -/
def World.sights (now : Instant) (w : World) : List Notice :=
  match w.pool.idle with
  | [] => if w.pool.mayOpen then [.makes w.supply.create.1] else []
  | e :: _ => [.looks ⟨e, w.face.read now, (w.supply.check e.id).1⟩]

/-- What is written down of the end of a get. -/
def Notice.ofTurn : Turn World Process Result → List Notice
  | .ends _ r _ _ => [.ends r]
  | .waits _ | .moves .. => []

/-- What is written down of a turn. -/
def notices (now : Instant) (w : World) : Process → List Notice
  | .getting => w.sights now ++ Notice.ofTurn (turn now w .getting)
  | q => Notice.ofTurn (turn now w q)

/-- What others leave behind: they use neither the pool nor the supply. -/
structure Leaves (y : Post World Process) (w : World) : Prop where
  pool : w.pool = y.world.pool
  inspection : w.supply.inspection = y.world.supply.inspection
  jobs : w.supply.jobs = y.world.supply.jobs

/-- Others do nothing but change the time that jobs take. -/
def Hastens (y : Post World Process) (w : World) : Prop :=
  ∃ latency, w = y.world.withSupply { y.world.supply with latency }

/-! ## What becomes of the resources -/

namespace Look

/-- The resource was idle for too long. -/
def isStale (p : Pool) (x : Look) : Bool := p.isStale x.reading x.entry

/-- The resource is not handed out. -/
def isSpurned (p : Pool) (inspects : Bool) (x : Look) : Bool :=
  x.isStale p || inspects && !x.outcome.isOk

/-- Why a spurned resource is destroyed. -/
def reason (p : Pool) (x : Look) : Disposal := if x.isStale p then .idleTimeout else .unhealthy

/-- The jobs that a spurned resource makes. -/
def jobs (p : Pool) (x : Look) : List Job :=
  if x.isStale p then [.destroy x.entry.id] else [.check x.entry.id, .destroy x.entry.id]

end Look

/-- The pool when some resources were spurned and the others are left. -/
def spurning (p : Pool) (seen : List Look) (rest : List Idle) : Pool :=
  { p with
    idle := rest
    opened := p.opened - seen.length
    stats := { p.stats with
      destroyed := p.stats.destroyed + seen.length
      evictedIdle := p.stats.evictedIdle + seen.countP (·.isStale p)
      evictedUnhealthy := p.stats.evictedUnhealthy + seen.countP (!·.isStale p) } }

/-- The pool when a resource was made. -/
def making (p : Pool) : Pool :=
  { p with opened := p.opened + 1, stats := { p.stats with created := p.stats.created + 1 } }

/-- Some resources were spurned, and the others are left. -/
structure Spurned (p : Pool) (inspects : Bool) (seen : List Look) (rest : List Idle) : Prop where
  idle : p.idle = seen.map Look.entry ++ rest
  spurned : ∀ x ∈ seen, x.isSpurned p inspects = true

/-- What comes of a get: what it came upon, what becomes of the pool, and which jobs the
supply was given. -/
inductive Selection (p : Pool) (inspects : Bool) : List Notice → Pool → List Job → Prop where
  /-- The first resource that is not spurned is handed out. -/
  | given {seen x rest} :
      Spurned p inspects seen (x.entry :: rest) → x.isSpurned p inspects = false →
      Selection p inspects ((seen ++ [x]).map .looks ++ [.ends (.resource x.entry.id)])
        (p.spurning seen rest)
        (seen.flatMap (·.jobs p) ++ if inspects then [.check x.entry.id] else [])
  /-- All were spurned, and as many are open as there may be. -/
  | exhausted {seen} :
      Spurned p inspects seen [] → p.config.checkout = .bounded →
      p.capacity ≤ p.opened - seen.length →
      Selection p inspects (seen.map .looks ++ [.ends (.failed (.exhausted p.capacity))])
        (p.spurning seen []) (seen.flatMap (·.jobs p))
  /-- All were spurned, and a new resource is made and handed out. -/
  | made {seen id} :
      Spurned p inspects seen [] →
      (p.config.checkout = .bounded → p.opened - seen.length < p.capacity) →
      Selection p inspects (seen.map .looks ++ [.makes (.ok id), .ends (.resource id)])
        (p.spurning seen []).making (seen.flatMap (·.jobs p) ++ [.create])
  /-- All were spurned, and no new resource can be made. -/
  | unmade {seen e} :
      Spurned p inspects seen [] →
      (p.config.checkout = .bounded → p.opened - seen.length < p.capacity) →
      Selection p inspects
        (seen.map .looks ++ [.makes (.error e), .ends (.failed (.resource e))])
        (p.spurning seen []) (seen.flatMap (·.jobs p) ++ [.create])

/-- How far a get has come, and what it came upon. -/
inductive Stage (p : Pool) (inspects : Bool) :
    Process → List Notice → Pool → List Job → Prop where
  | getting {seen rest} :
      Spurned p inspects seen rest →
      Stage p inspects .getting (seen.map .looks) (p.spurning seen rest)
        (seen.flatMap (·.jobs p))
  | evicting {seen x rest work} :
      Spurned p inspects (seen ++ [x]) rest →
      Stage p inspects (.evicting (x.reason p) work) ((seen ++ [x]).map .looks)
        (p.spurning seen rest) ((seen ++ [x]).flatMap (·.jobs p))
  | checking {seen x rest work} :
      Spurned p inspects seen (x.entry :: rest) → x.isStale p = false → inspects = true →
      work.outcome = x.outcome →
      Stage p inspects (.checking x.entry work) ((seen ++ [x]).map .looks)
        (p.spurning seen rest) (seen.flatMap (·.jobs p) ++ [.check x.entry.id])
  | creating {seen work} :
      Spurned p inspects seen [] →
      (p.config.checkout = .bounded → p.opened - seen.length < p.capacity) →
      Stage p inspects (.creating work) (seen.map .looks ++ [.makes work.outcome])
        { p.spurning seen [] with opened := p.opened - seen.length + 1 }
        (seen.flatMap (·.jobs p) ++ [.create])

variable {p : Pool} {inspects : Bool} {seen : List Look} {rest : List Idle} {x : Look}
  {now t : Instant} {w w' : World} {q q' : Process} {l : List Notice} {jobs : List Job}
  {work : Work} {y z : Post World Process}

/-! ## The books of a get -/

/-- A spurned resource leaves the queue, and is counted when it is destroyed. -/
theorem forget_spurning (p : Pool) (seen : List Look) (x : Look) (rest : List Idle) :
    (p.spurning seen rest).forget (some (x.reason p)) = p.spurning (seen ++ [x]) rest := by
  have hlength : (seen ++ [x]).length = seen.length + 1 := List.length_append
  simp only [forget, spurning, Look.reason, hlength, List.countP_append, List.countP_singleton,
    ← Nat.add_assoc, Nat.sub_sub]
  cases x.isStale p <;> rfl

theorem mayOpen_spurning_iff : (p.spurning seen []).mayOpen = true ↔
    (p.config.checkout = .bounded → p.opened - seen.length < p.capacity) := by
  rw [← Bool.not_eq_false, Scenario.mayOpen_eq_false_iff, not_and, Nat.not_le]
  exact Iff.rfl

theorem Spurned.concat (h : Spurned p inspects seen (x.entry :: rest))
    (hx : x.isSpurned p inspects = true) : Spurned p inspects (seen ++ [x]) rest where
  idle := by rw [h.idle, List.map_append, List.append_assoc]; rfl
  spurned y hy := by
    rcases List.mem_append.mp hy with hy | hy
    · exact h.spurned y hy
    · rwa [List.mem_singleton.mp hy]

theorem flatMap_jobs_concat (p : Pool) (seen : List Look) (x : Look) :
    (seen ++ [x]).flatMap (·.jobs p) = seen.flatMap (·.jobs p) ++ x.jobs p := by
  rw [List.flatMap_append, List.flatMap_singleton]

/-! ## The turns of a get -/

/-- The job that a get waits for. -/
def Process.work? : Process → Option Work
  | .checking _ work | .evicting _ work | .creating work => some work
  | _ => none

theorem settle_keeps (s : Supply) (job : Job) :
    (s.settle job).2.inspection = s.inspection ∧ (s.settle job).2.latency = s.latency := by
  cases job with
  | create =>
    simp only [Supply.settle, Supply.create]
    split <;> exact ⟨rfl, rfl⟩
  | check id =>
    simp only [Supply.settle, Supply.check]
    split
    · exact ⟨rfl, rfl⟩
    · split <;> exact ⟨rfl, rfl⟩
  | destroy id =>
    simp only [Supply.settle, Supply.destroy]
    split <;> exact ⟨rfl, rfl⟩

/-- Checks count as jobs if resources are looked at. -/
theorem jobs_settle (s : Supply) (job : Job)
    (h : ∀ id, job = .check id → s.checksLiveness = true) :
    (s.settle job).2.jobs = s.jobs ++ [job] := by
  cases job with
  | create =>
    simp only [Supply.settle, Supply.create]
    split <;> rfl
  | check id =>
    have hused : s.inspection = .used := beq_iff_eq.mp (h id rfl)
    simp only [Supply.settle, Supply.check, hused, reduceCtorEq, if_false]
    split <;> rfl
  | destroy id =>
    simp only [Supply.settle, Supply.destroy]
    split <;> rfl

/-- A spurned resource that is gone is forgotten. -/
theorem turn_evicting (hdue : isDue now work.due? = true) (w : World) (reason : Disposal) :
    ∃ records, turn now w (.evicting reason work) =
      .moves (w.forget (some reason)) .getting records := by
  simp only [turn, Supply.turn, hdue, if_true, Turn.within]
  exact ⟨_, rfl⟩

/-- A resource that was checked is handed out or destroyed. -/
theorem turn_checking (hdue : isDue now work.due? = true) (w : World) (e : Idle) :
    (∀ id, work.outcome = .ok id →
      ∃ records, turn now w (.checking e work) = .ends w (.resource e.id) [] records) ∧
    (∀ cause, work.outcome = .error cause →
      ∃ records, turn now w (.checking e work) =
        await w now (.destroy e.id) (.evicting .unhealthy) records) := by
  simp only [turn, Supply.turn, hdue, if_true, Turn.within]
  refine ⟨fun id hid => ?_, fun cause hcause => ?_⟩
  · rw [hid]
    exact ⟨_, by rfl⟩
  · rw [hcause]
    exact ⟨_, by rfl⟩

/-- A resource that was made is handed out. -/
theorem turn_creating (hdue : isDue now work.due? = true) (w : World) :
    ∃ records, turn now w (.creating work) = (created w work.outcome).after records := by
  simp only [turn, Supply.turn, hdue, if_true, Turn.within]
  exact ⟨_, rfl⟩

/-- Until then the get waits. -/
theorem turn_undue (hwork : q.work? = some work) (hdue : isDue now work.due? = false) (w : World) :
    turn now w q = .waits work.due? := by
  cases q with
  | checking | evicting | creating =>
    cases hwork
    simp only [turn, Supply.turn, hdue, Bool.false_eq_true, if_false, Turn.within]
  | _ => cases hwork

/-- A get makes a new resource if none is idle. -/
theorem turn_getting_nil (now : Instant) (hopen : w.pool.closed = false)
    (hidle : w.pool.idle = []) :
    turn now w .getting = openNew w now := by
  simp only [turn, get, hopen, Bool.false_eq_true, if_false, hidle]

/-- Otherwise it takes the resource in front. -/
theorem turn_getting_cons (now : Instant) {e : Idle} (hopen : w.pool.closed = false)
    (hidle : w.pool.idle = e :: rest) :
    turn now w .getting =
      if w.pool.isStale (w.face.read now) e then
        await (w.withPool { w.pool with idle := rest }) now (.destroy e.id)
          (.evicting .idleTimeout) [{ level := .debug, message := "evicting idle resource" }]
      else if w.supply.checksLiveness then
        await (w.withPool { w.pool with idle := rest }) now (.check e.id) (.checking e) []
      else .ends (w.withPool { w.pool with idle := rest }) (.resource e.id) [] [] := by
  simp only [turn, get, hopen, Bool.false_eq_true, if_false, hidle]
  rfl

/-- Only a get that looks at the queue comes upon something. -/
theorem notices_of_work? (hwork : q.work? = some work) (w : World) :
    notices now w q = Notice.ofTurn (turn now w q) := by
  cases q with
  | checking | evicting | creating => rfl
  | _ => cases hwork

/-- What a turn of a get leads to, if the pool was `p` before it and the supply had the
jobs `base`. -/
def Lands (p : Pool) (inspects : Bool) (base : List Job) (l : List Notice) :
    Turn World Process Result → Prop
  | .waits _ => True
  | .moves w q _ => w.supply.checksLiveness = inspects ∧ ∃ jobs,
      w.supply.jobs = base ++ jobs ∧ Stage p inspects q l w.pool jobs
  | .ends w _ _ _ => ∃ jobs, w.supply.jobs = base ++ jobs ∧ Selection p inspects l w.pool jobs

section

variable {base : List Job} (hinspects : w.supply.checksLiveness = inspects)
  (hjobs : w.supply.jobs = base ++ jobs)

include hinspects hjobs

/-- A job that a get gives to the supply. -/
theorem lands_await (job : Job) {next : Work → Process} {records : List Log.Record}
    (hcheck : ∀ id, job = .check id → inspects = true)
    (hstage : ∀ work, work.outcome = (w.supply.settle job).1 →
      Stage p inspects (next work) l w.pool (jobs ++ [job])) :
    Lands p inspects base l (await w now job next records) := by
  have hsettle := jobs_settle w.supply job fun id hid => hinspects.trans (hcheck id hid)
  refine ⟨?_, jobs ++ [job], ?_, hstage _ rfl⟩
  · rw [← hinspects]
    exact congrArg (· == Inspection.used) (settle_keeps w.supply job).1
  · rw [← List.append_assoc, ← hjobs]
    exact hsettle

/-- A get whose pool is empty has a new resource made, or is refused. -/
theorem lands_openNew (hspurned : Spurned p inspects seen [])
    (hpool : w.pool = p.spurning seen []) (hjobs' : jobs = seen.flatMap (·.jobs p))
    (hturn : turn now w q = openNew w now) (hq : q = .getting) :
    Lands p inspects base (seen.map .looks ++ notices now w q) (turn now w q) := by
  have hidle : w.pool.idle = [] := by rw [hpool]; rfl
  subst hjobs' hq
  cases hmay : w.pool.mayOpen with
  | true =>
    let w₁ : World := w.withPool { w.pool with opened := w.pool.opened + 1 }
    have hmoves : turn now w .getting = await w₁ now .create .creating [] := by
      rw [hturn, openNew, hmay]
      rfl
    have hnotices : notices now w .getting = [.makes w.supply.create.1] := by
      rw [notices, hmoves, World.sights, hidle, hmay]
      rfl
    have hroom : p.config.checkout = .bounded → p.opened - seen.length < p.capacity :=
      mayOpen_spurning_iff.mp (hpool ▸ hmay)
    rw [hmoves, hnotices]
    refine lands_await (w := w₁) hinspects hjobs .create (by simp) fun work hwork => ?_
    have hstage : Stage p inspects (.creating work) _ _ _ := .creating hspurned hroom
    rw [hwork] at hstage
    simp only [w₁, World.withPool, hpool]
    exact hstage
  | false =>
    obtain ⟨records, hends⟩ : ∃ records, turn now w .getting =
        .ends w (.failed (.exhausted p.capacity)) [] records := by
      rw [hturn, openNew, hmay, hpool]
      exact ⟨_, by rfl⟩
    have hnotices : notices now w .getting = [.ends (.failed (.exhausted p.capacity))] := by
      rw [notices, hends, World.sights, hidle, hmay]
      rfl
    obtain ⟨hbounded, hfull⟩ := Scenario.mayOpen_eq_false_iff.mp (hpool ▸ hmay)
    rw [hends, hnotices]
    refine ⟨_, hjobs, ?_⟩
    rw [hpool]
    exact .exhausted hspurned hbounded hfull

/-- A get takes the resource in front, and spurns it, checks it or hands it out. -/
theorem lands_taken {e : Idle} {w₁ : World} (hspurned : Spurned p inspects seen (e :: rest))
    (hpool : w.pool = p.spurning seen (e :: rest)) (hjobs' : jobs = seen.flatMap (·.jobs p))
    (hsupply : w₁.supply = w.supply) (hpool₁ : w₁.pool = p.spurning seen rest) (hq : q = .getting)
    (hturn : turn now w q =
      if p.isStale (w.face.read now) e then
        await w₁ now (.destroy e.id) (.evicting .idleTimeout)
          [{ level := .debug, message := "evicting idle resource" }]
      else if w.supply.checksLiveness then await w₁ now (.check e.id) (.checking e) []
      else .ends w₁ (.resource e.id) [] []) :
    Lands p inspects base (seen.map .looks ++ notices now w q) (turn now w q) := by
  let x : Look := ⟨e, w.face.read now, (w.supply.check e.id).1⟩
  have hsights : w.sights now = [.looks x] := by
    rw [World.sights, hpool]
    rfl
  subst hjobs' hq
  rw [← hsupply] at hinspects hjobs hturn
  cases hstale : x.isStale p with
  | true =>
    have hmoves := hturn.trans (if_pos hstale)
    have hnotices : notices now w .getting = [.looks x] := by rw [notices, hmoves, hsights]; rfl
    rw [hmoves, hnotices, ← List.map_singleton, ← List.map_append]
    refine lands_await hinspects hjobs (.destroy e.id) (by simp) fun work _ => ?_
    have hspurns : x.isSpurned p inspects = true := by rw [Look.isSpurned, hstale, Bool.true_or]
    have hstage : Stage p inspects (.evicting (x.reason p) work) _ _ _ :=
      .evicting (hspurned.concat hspurns)
    have hreason : x.reason p = .idleTimeout := if_pos hstale
    have hjob : x.jobs p = [.destroy e.id] := if_pos hstale
    rw [hreason, flatMap_jobs_concat, hjob] at hstage
    rw [hpool₁]
    exact hstage
  | false =>
    have hfresh : ¬ p.isStale (w.face.read now) e = true := Bool.eq_false_iff.mp hstale
    have hturn := hturn.trans (if_neg hfresh)
    rw [hinspects] at hturn
    cases inspects with
    | true =>
      have hturn := hturn.trans (if_pos rfl)
      have hnotices : notices now w .getting = [.looks x] := by rw [notices, hturn, hsights]; rfl
      rw [hturn, hnotices, ← List.map_singleton, ← List.map_append]
      refine lands_await hinspects hjobs (.check e.id) (fun _ _ => rfl) fun work hwork => ?_
      rw [hsupply] at hwork
      rw [hpool₁]
      exact .checking (x := x) hspurned hstale rfl hwork
    | false =>
      have hnotices : notices now w .getting = [.looks x, .ends (.resource e.id)] := by
        rw [notices, hturn, hsights]
        rfl
      have hsound : x.isSpurned p false = false := by rw [Look.isSpurned, hstale]; rfl
      have hgiven := Selection.given hspurned hsound
      rw [List.map_append, List.append_assoc] at hgiven
      rw [hturn, hnotices]
      refine ⟨_, hjobs, ?_⟩
      rw [if_neg Bool.false_ne_true, List.append_nil] at hgiven
      rw [hpool₁]
      exact hgiven

/-- A resource that was spurned is gone, and the get looks at the queue again. -/
theorem lands_evicting (hdue : isDue now work.due? = true)
    (hspurned : Spurned p inspects (seen ++ [x]) rest) (hpool : w.pool = p.spurning seen rest)
    (hjobs' : jobs = (seen ++ [x]).flatMap (·.jobs p)) (hq : q = .evicting (x.reason p) work) :
    Lands p inspects base ((seen ++ [x]).map .looks ++ notices now w q) (turn now w q) := by
  obtain ⟨records, hmoves⟩ := turn_evicting hdue w (x.reason p)
  have hforgot : (w.forget (some (x.reason p))).pool = p.spurning (seen ++ [x]) rest := by
    rw [← forget_spurning, ← hpool]
    rfl
  subst hjobs' hq
  rw [notices_of_work? rfl, hmoves, Notice.ofTurn, List.append_nil]
  refine ⟨hinspects, _, hjobs, ?_⟩
  rw [hforgot]
  exact .getting hspurned

/-- A resource that was found sound is handed out, and spurned otherwise. -/
theorem lands_checked (hdue : isDue now work.due? = true)
    (hspurned : Spurned p inspects seen (x.entry :: rest)) (hstale : x.isStale p = false)
    (hlooks : inspects = true) (houtcome : work.outcome = x.outcome)
    (hpool : w.pool = p.spurning seen rest)
    (hjobs' : jobs = seen.flatMap (·.jobs p) ++ [.check x.entry.id])
    (hq : q = .checking x.entry work) :
    Lands p inspects base ((seen ++ [x]).map .looks ++ notices now w q) (turn now w q) := by
  obtain ⟨hsound, hunsound⟩ := turn_checking hdue w x.entry
  rw [houtcome, ← hq] at hsound hunsound
  rw [notices_of_work? (by rw [hq]; rfl)]
  subst hjobs'
  cases hfound : x.outcome with
  | ok id =>
    obtain ⟨records, hends⟩ := hsound id hfound
    have hsound : x.isSpurned p inspects = false := by
      rw [Look.isSpurned, hstale, hfound]
      exact Bool.and_false _
    have hgiven := Selection.given hspurned hsound
    rw [if_pos hlooks] at hgiven
    rw [hends, Notice.ofTurn]
    refine ⟨_, hjobs, ?_⟩
    rw [hpool]
    exact hgiven
  | error e =>
    obtain ⟨records, hmoves⟩ := hunsound e hfound
    have hspurns : x.isSpurned p inspects = true := by
      rw [Look.isSpurned, hlooks, hfound]
      exact Bool.or_true _
    have hfresh : ¬ x.isStale p = true := Bool.eq_false_iff.mp hstale
    have hreason : x.reason p = .unhealthy := if_neg hfresh
    have hjob : x.jobs p = [.check x.entry.id, .destroy x.entry.id] := if_neg hfresh
    rw [hmoves, await, Notice.ofTurn, List.append_nil]
    refine lands_await hinspects hjobs (.destroy x.entry.id) (by simp) fun work _ => ?_
    have hstage : Stage p inspects (.evicting (x.reason p) work) _ _ _ :=
      .evicting (hspurned.concat hspurns)
    rw [hreason, flatMap_jobs_concat, hjob] at hstage
    rw [hpool, List.append_assoc]
    exact hstage

omit hinspects in
/-- A resource that was made is handed out, and the place is given up if none was. -/
theorem lands_created (hdue : isDue now work.due? = true) (hspurned : Spurned p inspects seen [])
    (hroom : p.config.checkout = .bounded → p.opened - seen.length < p.capacity)
    (hpool : w.pool = { p.spurning seen [] with opened := p.opened - seen.length + 1 })
    (hjobs' : jobs = seen.flatMap (·.jobs p) ++ [.create]) (hq : q = .creating work) :
    Lands p inspects base (seen.map .looks ++ [.makes work.outcome] ++ notices now w q)
      (turn now w q) := by
  obtain ⟨records, hturn⟩ := turn_creating hdue w
  rw [← hq] at hturn
  rw [notices_of_work? (by rw [hq]; rfl)]
  subst hjobs'
  cases houtcome : work.outcome with
  | ok id =>
    let stats := { w.pool.stats with created := w.pool.stats.created + 1 }
    obtain ⟨records, hends⟩ : ∃ records, turn now w q =
        .ends (w.withPool { w.pool with stats }) (.resource id) [] records := by
      rw [hturn, houtcome]
      exact ⟨_, by rfl⟩
    rw [hends, Notice.ofTurn, List.append_assoc]
    refine ⟨_, hjobs, ?_⟩
    simp only [World.withPool, stats, hpool]
    exact .made hspurned hroom
  | error e =>
    obtain ⟨records, hends⟩ : ∃ records, turn now w q =
        .ends (w.withPool { w.pool with opened := w.pool.opened - 1 })
          (.failed (.resource e)) [] records := by
      rw [hturn, houtcome]
      exact ⟨_, by rfl⟩
    rw [hends, Notice.ofTurn, List.append_assoc]
    refine ⟨_, hjobs, ?_⟩
    simp only [World.withPool, hpool]
    exact .unmade hspurned hroom

/-- A get goes on or comes to its end on every turn. -/
theorem Stage.lands (now : Instant) (h : Stage p inspects q l w.pool jobs)
    (hopen : p.closed = false) :
    Lands p inspects base (l ++ notices now w q) (turn now w q) := by
  generalize hpool : w.pool = pool at h
  have hundue : ∀ {work}, q.work? = some work → isDue now work.due? = false →
      Lands p inspects base (l ++ notices now w q) (turn now w q) := by
    intro work hwork hdue
    rw [turn_undue hwork hdue]
    trivial
  cases h with
  | @getting seen rest hspurned =>
    have hclosed : w.pool.closed = false := by rw [hpool]; exact hopen
    have hidle : w.pool.idle = rest := by rw [hpool]; rfl
    cases rest with
    | nil =>
      have hturn := turn_getting_nil now hclosed hidle
      exact lands_openNew hinspects hjobs hspurned hpool rfl hturn rfl
    | cons e rest =>
      have hturn := turn_getting_cons now hclosed hidle
      have hstale : w.pool.isStale (w.face.read now) e = p.isStale (w.face.read now) e := by
        rw [hpool]
        rfl
      rw [hstale] at hturn
      have hrest : (w.withPool { w.pool with idle := rest }).pool = p.spurning seen rest := by
        rw [World.withPool, hpool]
        rfl
      have hsupply : (w.withPool { w.pool with idle := rest }).supply = w.supply := rfl
      exact lands_taken hinspects hjobs hspurned hpool rfl hsupply hrest rfl hturn
  | @evicting _ _ _ work hspurned =>
    cases hdue : isDue now work.due? with
    | false => exact hundue rfl hdue
    | true => exact lands_evicting hinspects hjobs hdue hspurned hpool rfl rfl
  | @checking _ _ _ work hspurned hstale hlooks houtcome =>
    cases hdue : isDue now work.due? with
    | false => exact hundue rfl hdue
    | true =>
      exact lands_checked hinspects hjobs hdue hspurned hstale hlooks houtcome hpool rfl rfl
  | @creating _ work hspurned hroom =>
    cases hdue : isDue now work.due? with
    | false => exact hundue rfl hdue
    | true => exact lands_created hjobs hdue hspurned hroom hpool rfl rfl

end

/-! ## How a get comes to its end -/

/-- The world in which jobs take no time. -/
def World.hastened (w : World) : World :=
  w.withSupply { w.supply with latency := fun _ => .zero }

/-- A get can come to its end. -/
def Ends (t : Instant) (w : World) (q : Process) : Prop :=
  ∃ l z, Watch turn Hastens notices ⟨t, w, some q⟩ l z ∧ z.process? = none

theorem Ends.of_moves {records : List Log.Record} (h : turn t w q = .moves w' q' records)
    (hends : Ends t w' q') : Ends t w q := by
  obtain ⟨l, z, hwatch, hover⟩ := hends
  exact ⟨_, z, (Watch.refl.moves h).trans hwatch, hover⟩

theorem Ends.of_ends {r : Result} {started : List Process} {records : List Log.Record}
    (h : turn t w q = .ends w' r started records) : Ends t w q :=
  ⟨_, _, Watch.refl.ends h, rfl⟩

theorem Ends.of_hastened (h : Ends t w.hastened q) : Ends t w q := by
  obtain ⟨l, z, hwatch, hover⟩ := h
  have hfirst : Watch turn Hastens notices ⟨t, w, some q⟩ [] ⟨t, w.hastened, some q⟩ :=
    Watch.refl.changes ⟨_, rfl⟩
  exact ⟨_, z, hfirst.trans hwatch, hover⟩

/-- A job whose end clocks can read comes to its end. -/
theorem Ends.of_due (hwork : q.work? = some work) (hdue : work.due? ≠ none)
    (h : ∀ u, isDue u work.due? = true → Ends u w.hastened q) : Ends t w q := by
  obtain ⟨due, hdue⟩ := Option.ne_none_iff_exists'.mp hdue
  refine .of_hastened ?_
  by_cases hle : due ≤ t
  · exact h t (by rw [hdue]; exact decide_eq_true hle)
  have hlt : t < due := Nat.lt_of_not_le hle
  have hwaits : turn t w.hastened q = .waits (some due) := by
    rw [turn_undue hwork (by rw [hdue]; exact decide_eq_false hle), hdue]
  obtain ⟨l, z, hwatch, hover⟩ := h due (by rw [hdue]; exact decide_eq_true (Nat.le_refl _))
  have hfirst : Watch turn Hastens notices ⟨t, w.hastened, some q⟩ []
      ⟨due, w.hastened, some q⟩ := Watch.refl.waits (Nat.le_of_lt hlt) fun _ => hwaits
  exact ⟨_, z, hfirst.trans hwatch, hover⟩

/-- A job that takes no time is over at once. -/
theorem due?_give (now : Instant) {s : Supply} (hlatency : s.latency = fun _ => .zero)
    (job : Job) : (s.give now job).1.due? = some now := by
  simp only [Supply.give]
  rw [(settle_keeps _ job).2, hlatency]
  exact Instant.after?_zero now

/-- A get can come to its end if it waits for a job that takes no time. -/
theorem Ends.of_await {job : Job} {next : Work → Process} {records : List Log.Record}
    (hlatency : w'.supply.latency = fun _ => .zero)
    (hturn : turn t w q = await w' t job next records)
    (h : ∀ work w₁, work.due? ≠ none → w₁.pool = w'.pool → Ends t w₁ (next work)) :
    Ends t w q := by
  have hdue : (w'.supply.give t job).1.due? ≠ none := by
    rw [due?_give t hlatency]
    exact Option.some_ne_none t
  exact .of_moves hturn (h _ _ hdue rfl)

theorem ends_creating (hdue : work.due? ≠ none) : Ends t w (.creating work) := by
  refine .of_due rfl hdue fun u hdue => ?_
  obtain ⟨records, hturn⟩ := turn_creating hdue w.hastened
  cases houtcome : work.outcome with
  | ok id =>
    rw [houtcome] at hturn
    exact .of_ends hturn
  | error e =>
    rw [houtcome] at hturn
    exact .of_ends hturn

section

variable (hrest : ∀ t (w' : World), w'.pool.idle = w.pool.idle →
  w'.pool.closed = w.pool.closed → Ends t w' .getting)

include hrest

theorem ends_evicting {reason : Disposal} (hdue : work.due? ≠ none) :
    Ends t w (.evicting reason work) := by
  refine .of_due rfl hdue fun u hdue => ?_
  obtain ⟨records, hmoves⟩ := turn_evicting hdue w.hastened reason
  exact .of_moves hmoves (hrest u _ rfl rfl)

theorem ends_checking {e : Idle} (hdue : work.due? ≠ none) : Ends t w (.checking e work) := by
  refine .of_due rfl hdue fun u hdue => ?_
  obtain ⟨hsound, hunsound⟩ := turn_checking hdue w.hastened e
  cases houtcome : work.outcome with
  | ok id =>
    obtain ⟨records, hends⟩ := hsound id houtcome
    exact .of_ends hends
  | error cause =>
    obtain ⟨records, hturn⟩ := hunsound cause houtcome
    have hlatency : w.hastened.supply.latency = fun _ => .zero := rfl
    refine .of_await hlatency hturn fun work w₁ hdue hpool =>
      ends_evicting (fun t w' hidle hclosed => ?_) hdue
    exact hrest t w' (by rw [hidle, hpool]; rfl) (by rw [hclosed, hpool]; rfl)

end

/-- A get can come to its end, whatever is idle. -/
theorem ends_getting {idle : List Idle} (hidle : w.pool.idle = idle)
    (hopen : w.pool.closed = false) : Ends t w .getting := by
  induction idle generalizing t w with
  | nil =>
    have hturn := turn_getting_nil (w := w.hastened) t hopen hidle
    refine .of_hastened ?_
    rw [openNew] at hturn
    split at hturn
    next => exact .of_await rfl hturn fun work w₁ hdue _ => ends_creating hdue
    next => exact .of_ends hturn
  | cons e rest ih =>
    have hturn := turn_getting_cons (w := w.hastened) t hopen hidle
    have hrest : ∀ {w₁ : World}, w₁.pool = { w.pool with idle := rest } → ∀ t (w' : World),
        w'.pool.idle = w₁.pool.idle → w'.pool.closed = w₁.pool.closed → Ends t w' .getting := by
      intro w₁ hpool t w' hidle hclosed
      rw [hpool] at hidle hclosed
      exact ih hidle (hclosed.trans hopen)
    refine .of_hastened ?_
    split at hturn
    next => exact .of_await rfl hturn fun _ _ hdue hpool => ends_evicting (hrest hpool) hdue
    next =>
      split at hturn
      next => exact .of_await rfl hturn fun _ _ hdue hpool => ends_checking (hrest hpool) hdue
      next => exact .of_ends hturn

/-- A get that has come so far can come to its end. -/
theorem Stage.ends (h : Stage p inspects q l w.pool jobs) (hopen : p.closed = false)
    (hdue : ∀ work, q.work? = some work → work.due? ≠ none) (t : Instant) : Ends t w q := by
  generalize hpool : w.pool = pool at h
  have hrest : w.pool.closed = false → ∀ t (w' : World), w'.pool.idle = w.pool.idle →
      w'.pool.closed = w.pool.closed → Ends t w' .getting := by
    intro hopen t w' hidle hclosed
    exact ends_getting rfl (hclosed.trans hopen)
  cases h with
  | getting => exact ends_getting rfl (hpool ▸ hopen)
  | evicting => exact ends_evicting (hrest (hpool ▸ hopen)) (hdue _ rfl)
  | checking => exact ends_checking (hrest (hpool ▸ hopen)) (hdue _ rfl)
  | creating => exact ends_creating (hdue _ rfl)

/-! ## Gets in systems -/

/-- Time passes promptly, and all others leave the get of a number alone. -/
def Undisturbed (i : Nat) : Rule World Process := fun s c s' =>
  Prompt turn s c s' ∧ (¬ c.IsTurn i → Leaves (s.post i) s'.world)

instance (y : Post World Process) (w : World) : Decidable (Leaves y w) :=
  decidable_of_iff (w.pool = y.world.pool ∧ w.supply.inspection = y.world.supply.inspection ∧
      w.supply.jobs = y.world.supply.jobs)
    ⟨fun h => ⟨h.1, h.2.1, h.2.2⟩, fun h => ⟨h.pool, h.inspection, h.jobs⟩⟩

instance (i : Nat) (s s' : System World Process) (c : Choice Process) :
    Decidable (Undisturbed i s c s') :=
  inferInstanceAs (Decidable (_ ∧ _))

/-- A get in a system is watched. -/
theorem watch_of_chronicle {s s' : System World Process} {i : Nat}
    (hget : s.process? i = some .getting)
    (h : Chronicle turn (Undisturbed i) (System.noteOf notices i) s l s') :
    Watch turn Leaves notices ⟨s.now, s.world, some .getting⟩ l (s'.post i) := by
  rw [← System.post_of_process? hget]
  exact .of_chronicle (fun hrule => hrule.1) (fun _ hrule hother => hrule.2 hother) h
    (System.lt_length_of_process? hget)

/-! ## The main theorem -/

/-- What holds of a get, and of what it came upon. -/
def Follows (w₀ : World) (l : List Notice) (y : Post World Process) : Prop :=
  ∃ jobs, y.world.supply.jobs = w₀.supply.jobs ++ jobs ∧
    (y.process? = none → Selection w₀.pool w₀.supply.checksLiveness l y.world.pool jobs) ∧
    ∀ q, y.process? = some q → y.world.supply.checksLiveness = w₀.supply.checksLiveness ∧
      Stage w₀.pool w₀.supply.checksLiveness q l y.world.pool jobs

/-- What holds of a get along its turns goes on to hold. -/
theorem follows {w₀ : World} (hopen : w₀.pool.closed = false)
    (h : Watch turn Leaves notices ⟨now, w₀, some .getting⟩ l y) : Follows w₀ l y := by
  refine h.preserves (I := Follows w₀) ?_ ?_ ?_ ?_ ?_
  · rintro l t w q w' q' records ⟨jobs, hjobs, -, hstage⟩ hmoves
    obtain ⟨hinspects, hstage⟩ := hstage q rfl
    have hlands := hstage.lands hinspects hjobs t hopen
    rw [hmoves] at hlands
    obtain ⟨hinspects, jobs, hjobs, hstage⟩ := hlands
    refine ⟨jobs, hjobs, nofun, ?_⟩
    rintro _ ⟨⟩
    exact ⟨hinspects, hstage⟩
  · rintro l t w q w' r started records ⟨jobs, hjobs, -, hstage⟩ hends
    obtain ⟨hinspects, hstage⟩ := hstage q rfl
    have hlands := hstage.lands hinspects hjobs t hopen
    rw [hends] at hlands
    obtain ⟨jobs, hjobs, hselection⟩ := hlands
    refine ⟨jobs, hjobs, fun _ => hselection, ?_⟩
    rintro _ ⟨⟩
  · rintro l t w q? w' ⟨jobs, hjobs, hover, hstage⟩ hleaves
    refine ⟨jobs, hleaves.jobs.trans hjobs, fun hnone => ?_, fun q hq => ?_⟩
    · rw [hleaves.pool]
      exact hover hnone
    · obtain ⟨hinspects, hstage⟩ := hstage q hq
      refine ⟨?_, ?_⟩
      · rw [Supply.checksLiveness, hleaves.inspection]
        exact hinspects
      · rw [hleaves.pool]
        exact hstage
  · rintro l t w q? t' hfollows - -
    exact hfollows
  · refine ⟨[], (List.append_nil _).symm, nofun, ?_⟩
    rintro _ ⟨⟩
    have hnone : Spurned w₀.pool w₀.supply.checksLiveness [] w₀.pool.idle := ⟨rfl, nofun⟩
    exact ⟨rfl, .getting hnone⟩

/-- **A get selects the first resource that need not be spurned**, while others leave the
pool alone.

When it is over, what it came upon, what has become of the pool and which jobs the supply
was given go together as `Selection` says: the resources in front that were idle for too
long, or that a supply that is asked found unsound, were destroyed one after the other,
each counted for its reason and with its jobs; the first other resource was handed out,
with the rest left as they were; and if there was none, the get was refused or tried once
to make a resource, as the policy has it.

A get that is not over can come to its end, if clocks can read when the job is over that
it waits for. -/
theorem get_selects {w₀ : World} (hopen : w₀.pool.closed = false)
    (h : Watch turn Leaves notices ⟨now, w₀, some .getting⟩ l y) :
    (y.process? = none → ∃ jobs,
      Selection w₀.pool w₀.supply.checksLiveness l y.world.pool jobs ∧
        y.world.supply.jobs = w₀.supply.jobs ++ jobs) ∧
    ∀ q, y.process? = some q → (∀ work, q.work? = some work → work.due? ≠ none) →
      ∃ l' z, Watch turn Hastens notices y l' z ∧ z.process? = none := by
  obtain ⟨jobs, hjobs, hover, hstage⟩ := follows hopen h
  refine ⟨fun hnone => ⟨jobs, hover hnone, hjobs⟩, fun q hq hdue => ?_⟩
  obtain ⟨t, w, q?⟩ := y
  cases hq
  exact (hstage q rfl).2.ends hopen hdue t

/-- A minute after the start, the first resource was idle for too long, and the second one
is not sound.  Every job takes a second, and destroying a resource fails. -/
def stocked : System World Process where
  now := { nanos := 60000000000 }
  world := {
    pool := {
      config := { max := 4, idleTimeout := .ofSeconds 30 }
      idle := [⟨1, .epoch⟩, ⟨2, { nanos := 50000000000 }⟩, ⟨3, { nanos := 55000000000 }⟩,
        ⟨4, { nanos := 58000000000 }⟩]
      opened := 4 }
    supply := { unsound := [2], destroyFails := true, latency := fun _ => .ofSeconds 1 }
    face := .simulated }
  processes := [some .getting]

/-- The jobs take their time, one after the other. -/
def stockedChoices : List (Choice Process) :=
  [.turn 0, .pass { nanos := 61000000000 }, .turn 0, .turn 0, .pass { nanos := 62000000000 },
    .turn 0, .pass { nanos := 63000000000 }, .turn 0, .turn 0, .pass { nanos := 64000000000 },
    .turn 0]

/-- What the get comes upon. -/
def stockedNotices : List Notice :=
  [.looks ⟨⟨1, .epoch⟩, { nanos := 60000000000 }, .ok 1⟩,
    .looks ⟨⟨2, { nanos := 50000000000 }⟩, { nanos := 61000000000 },
      .error (.unhealthy "fake conn 2")⟩,
    .looks ⟨⟨3, { nanos := 55000000000 }⟩, { nanos := 63000000000 }, .ok 3⟩,
    .ends (.resource 3)]

theorem get_selects_stocked :
    stocked.world.pool.closed = false ∧
      (∃ s jobs, Chronicle turn (Undisturbed 0) (System.noteOf notices 0) stocked
        stockedNotices s ∧ s.process? 0 = none ∧
        Selection stocked.world.pool true stockedNotices s.world.pool jobs ∧
        s.world.supply.jobs = jobs ∧
        jobs = [.destroy 1, .check 2, .destroy 2, .check 3] ∧
        s.world.pool.idle = [⟨4, { nanos := 58000000000 }⟩] ∧ s.world.pool.opened = 2) ∧
      ∃ l z, Watch turn Hastens notices ⟨stocked.now, stocked.world, some .getting⟩ l z ∧
        z.process? = none := by
  have hopen : stocked.world.pool.closed = false := rfl
  have hruns : (stocked.follow? turn (Undisturbed 0) stockedChoices).any (fun s =>
      decide (s.process? 0).isNone && decide (s.world.supply.jobs =
        [.destroy 1, .check 2, .destroy 2, .check 3]) &&
        decide (s.world.pool.idle = [⟨4, { nanos := 58000000000 }⟩]) &&
          decide (s.world.pool.opened = 2)) = true := by
    decide +kernel
  obtain ⟨s, hs, hfacts⟩ := (Option.any_eq_true _ _).mp hruns
  simp only [Bool.and_eq_true, decide_eq_true_eq] at hfacts
  obtain ⟨⟨⟨hover, hjobs⟩, hidle⟩, hopened⟩ := hfacts
  have hover : s.process? 0 = none := Option.isNone_iff_eq_none.mp hover
  have hnotices : stocked.notes turn (System.noteOf notices 0) stockedChoices =
      stockedNotices := by decide +kernel
  have hchronicle : Chronicle turn (Undisturbed 0) (System.noteOf notices 0) stocked
      stockedNotices s := hnotices ▸ .of_follow? stockedChoices hs
  obtain ⟨jobs, hselection, hgiven⟩ :=
    (get_selects hopen (watch_of_chronicle rfl hchronicle)).1 hover
  have hnow : Watch turn Leaves notices ⟨stocked.now, stocked.world, some .getting⟩ []
    ⟨stocked.now, stocked.world, some .getting⟩ := .refl
  exact ⟨hopen, ⟨s, jobs, hchronicle, hover, hselection, hgiven, hgiven.symm.trans hjobs, hidle,
    hopened⟩, (get_selects hopen hnow).2 .getting rfl nofun⟩

end Leasehold.Pool
