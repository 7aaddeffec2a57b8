import Leasehold.Proofs.Pool.Conservation
import Leasehold.Proofs.Simulation.Chronicle

/-!
# A pool that was released

From the moment a pool is released it is closed and its queue is empty (`Shut`), and
both stay so (`Deed.shut`).  What a call does from then on is written down in a
chronicle of `acts`: the jobs that it gives the supply, and how it ends.  A call that
begins now has few of them (`Remains`): one that wants a resource is refused, one that
puts a resource back has it destroyed, and another release does nothing.

Operations that were under way go on, and what they hold is destroyed or handed out
and given back.  When all is over, the custody of the resources and the books of the
pool say that everything that was made is destroyed (`shutdown_final`).
-/

namespace Leasehold

/-! ## The jobs of a supply -/

namespace Supply

variable (s : Supply) (now : Instant)

@[simp] theorem jobs_give_destroy (id : Nat) :
    (s.give now (.destroy id)).2.jobs = s.jobs ++ [.destroy id] := by
  simp only [give, settle, destroy]
  split <;> rfl

theorem jobs_give_check (id : Nat) :
    (s.give now (.check id)).2.jobs = s.jobs ∨
      (s.give now (.check id)).2.jobs = s.jobs ++ [.check id] := by
  simp only [give, settle, check]
  split
  · exact .inl rfl
  · split <;> exact .inr rfl

end Supply

namespace Pool.Scenario

open Simulation

/-! ## What calls do to be seen -/

/-- Something that a call does outside the pool. -/
inductive Event where
  /-- It gives the supply a job. -/
  | asked (job : Job)
  /-- It ends. -/
  | ended (out : Outcome)

/-- The jobs that a supply was given between one world and a later one. -/
def World.newJobs (w w' : World) : List Job :=
  w'.inner.supply.jobs.drop w.inner.supply.jobs.length

/-- What a process does on a turn. -/
def events (w : World) : Turn World Process Outcome → List Event
  | .waits _ => []
  | .moves w' _ _ => (w.newJobs w').map .asked
  | .ends w' out _ _ => (w.newJobs w').map .asked ++ [.ended out]

/-- What is done by a choice, and the number of the process that does it. -/
def acts (s : Use) : Choice Process → List (Nat × Event)
  | .turn i =>
      match s.process? i with
      | none => []
      | some p => (events s.world (turn s.now s.world p)).map (i, ·)
  | .start _ | .pass _ => []

/-- What the process of a number has done. -/
def own (i : Nat) (l : List (Nat × Event)) : List Event :=
  l.filterMap fun a => if a.1 = i then some a.2 else none

variable {now : Instant} {w w' : World} {p : Process} {next? : Option Process}
  {out? : Option Outcome} {count : Nat} {rest : List Idle} {s s' t : Use} {c : Choice Process}
  {i : Nat} {l : List (Nat × Event)}

theorem own_append (i : Nat) (l l' : List (Nat × Event)) : own i (l ++ l') = own i l ++ own i l' :=
  List.filterMap_append

theorem acts_turn (h : s.process? i = some p) :
    acts s (.turn i) = (events s.world (turn s.now s.world p)).map (i, ·) := by
  rw [acts, h]

theorem own_acts_self (h : s.process? i = some p) :
    own i (acts s (.turn i)) = events s.world (turn s.now s.world p) := by
  simp [acts_turn h, own, List.filterMap_map]

theorem own_acts_of_not_turn (h : ¬ c.IsTurn i) : own i (acts s c) = [] := by
  cases c with
  | turn j =>
    have hne : j ≠ i := h
    simp only [acts]
    split
    · rfl
    · simp [own, hne]
  | start | pass => rfl

theorem World.newJobs_of_jobs (h : w'.inner.supply.jobs = w.inner.supply.jobs) :
    w.newJobs w' = [] := by
  rw [newJobs, h, List.drop_length]

theorem World.newJobs_destroy {v : World} (h : v.inner.supply = w.inner.supply) (now : Instant)
    (id : Nat) : w.newJobs (v.assign now (.destroy id)) = [.destroy id] := by
  rw [newJobs, supply_assign, h, Supply.jobs_give_destroy, List.drop_left]

/-- No resource was made between two worlds. -/
abbrev World.MakesNone (w w' : World) : Prop := .create ∉ w.newJobs w'

theorem World.makesNone_of_jobs (h : w'.inner.supply.jobs = w.inner.supply.jobs) :
    w.MakesNone w' := by
  rw [MakesNone, newJobs_of_jobs h]
  exact List.not_mem_nil

theorem World.makesNone_destroy {v : World} (h : v.inner.supply = w.inner.supply) (now : Instant)
    (id : Nat) : w.MakesNone (v.assign now (.destroy id)) := by
  rw [MakesNone, newJobs_destroy h]
  simp

theorem World.makesNone_check (w : World) (now : Instant) (id : Nat) :
    w.MakesNone (w.assign now (.check id)) := by
  rw [MakesNone, newJobs, supply_assign]
  obtain hjobs | hjobs := w.inner.supply.jobs_give_check now id <;> simp [hjobs]

/-! ## A closed pool -/

/-- The pool is closed and holds nothing. -/
structure Shut (w : World) : Prop where
  closed : w.inner.pool.closed = true
  idle : w.inner.pool.idle = []

/-- A pool that is closed stays so, and nothing comes into its queue. -/
theorem Shut.deed (hw : Shut w) (h : Deed now w p w' next? out?) : Shut w' := by
  obtain ⟨hclosed, hidle⟩ := hw
  cases h with
  | aside _ halike _ _ => exact ⟨halike.pool ▸ hclosed, halike.pool ▸ hidle⟩
  | exhausted hopen | reserved hopen | taken hopen | outdated hopen | inspected hopen
  | released hopen =>
    rw [hclosed] at hopen
    cases hopen
  | stored _ hopen =>
    rw [hclosed] at hopen
    cases hopen
  | drained hdrains =>
    refine ⟨?_, ?_⟩ <;> rw [hdrains.pool]
    · exact hclosed
    · exact hidle
  | wanted | refused | sound | unsound | evicted | made | unmade | unheld | rejected | disposed
  | surrendered | closed | shut => exact ⟨hclosed, hidle⟩

/-- A pool that is closed holds nothing. -/
def Tight (w : World) : Prop := w.inner.pool.closed = true → w.inner.pool.idle = []

/-- A release closes the pool and empties its queue. -/
theorem Deed.shut_of_release (h : Deed now w (.action .release) w' next? out?) (hw : Tight w) :
    Shut w' := by
  cases h with
  | aside haside => cases haside
  | unheld ha => obtain ha | ha := ha <;> cases ha
  | shut hclosed => exact ⟨hclosed, hw hclosed⟩
  | released _ hdrains => exact ⟨by rw [hdrains.pool]; rfl, by rw [hdrains.pool]; rfl⟩

/-- Only a release closes a pool. -/
theorem Deed.closed_eq (h : Deed now w p w' next? out?) :
    p = .action .release ∨ w'.inner.pool.closed = w.inner.pool.closed := by
  cases h with
  | shut | released => exact .inl rfl
  | aside _ halike => exact .inr (by rw [halike.pool])
  | drained hdrains => exact .inr (by rw [hdrains.pool]; rfl)
  | _ => exact .inr rfl

theorem Deed.tight (h : Deed now w p w' next? out?) (hw : Tight w) : Tight w' := by
  intro hclosed'
  obtain rfl | hclosed := h.closed_eq
  · exact (h.shut_of_release hw).idle
  · rw [hclosed] at hclosed'
    exact (Shut.deed ⟨hclosed', hw hclosed'⟩ h).idle

/-- Whoever does nothing with the pool has no resource made. -/
theorem makesNone_of_aside (hp : p.IsAside) :
    Leaves (fun w' _ _ => w.MakesNone w') (turn now w p) := by
  cases p with
  | operation => cases hp
  | checking work =>
    simp only [turn, Supply.turn]
    split
    · exact ⟨rfl, World.makesNone_of_jobs rfl⟩
    · trivial
  | asleep due? =>
    simp only [turn]
    split
    · exact ⟨rfl, World.makesNone_of_jobs rfl⟩
    · trivial
  | action a =>
    cases a with
    | get | put | close | release => cases hp
    | check id => exact w.makesNone_check now id
    | sleep d => exact World.makesNone_of_jobs (w := w) rfl
    | counts | failCreateAfter | allowCreate | failDestroy | markUnhealthy | latency =>
      exact ⟨rfl, World.makesNone_of_jobs rfl⟩
    | advance | setClock =>
      simp only [turn, begin, World.act, World.setHand]
      split <;> exact ⟨rfl, World.makesNone_of_jobs rfl⟩

theorem Drains.makesNone {v : World} (h : Drains now v count rest w' next? out?)
    (hsupply : v.inner.supply = w.inner.supply) : w.MakesNone w' := by
  cases h with
  | empty => exact World.makesNone_of_jobs (congrArg Supply.jobs hsupply)
  | next => exact World.makesNone_destroy hsupply now _

/-- At a closed pool no resource is made. -/
theorem Shut.makesNone (hw : Shut w) (now : Instant) (hfit : p.Fit) :
    Leaves (fun w' _ _ => w.MakesNone w') (turn now w p) := by
  by_cases haside : p.IsAside
  · exact makesNone_of_aside haside
  refine (turn_isDeed hfit).mono fun w' next? out? hdeed => ?_
  have hclosed := hw.closed
  cases hdeed with
  | aside hp => exact absurd hp haside
  | exhausted hopen | reserved hopen | taken hopen | outdated hopen | inspected hopen
  | released hopen =>
    rw [hclosed] at hopen
    cases hopen
  | stored _ hopen =>
    rw [hclosed] at hopen
    cases hopen
  | unsound | rejected | surrendered => exact World.makesNone_destroy rfl now _
  | drained hdrains => exact hdrains.makesNone rfl
  | wanted | refused | sound | evicted | made | unmade | unheld | disposed | closed | shut =>
    exact World.makesNone_of_jobs rfl

/-! ## Calls that begin at a closed pool -/

/-- How a call ends that wants something of a closed pool. -/
def refusal : Event := .ended (.result (.failed .closed))

/-- An operation that a closed pool refuses when it goes on. -/
inductive IsRefused : Process → Prop where
  | getting : IsRefused (.operation .getting)
  | rejecting (work) : IsRefused (.operation (.rejecting .closed work))

theorem turn_getting (now : Instant) (hw : Shut w) :
    turn now w (.operation .getting) = .ends w (.result (.failed .closed)) [] [] := by
  rw [turn, Pool.turn, Pool.get, hw.closed]
  rfl

/-- Such an operation waits, or ends with the refusal. -/
theorem IsRefused.turn_cases (h : IsRefused p) (now : Instant) (hw : Shut w) :
    (∃ due?, turn now w p = .waits due?) ∨
      ∃ w' out records, turn now w p = .ends w' out [] records ∧
        events w (turn now w p) = [refusal] := by
  cases h with
  | getting =>
    rw [turn_getting now hw]
    refine .inr ⟨_, _, _, rfl, ?_⟩
    rw [events, World.newJobs_of_jobs rfl]
    rfl
  | rejecting work =>
    simp only [turn, Pool.turn, Supply.turn]
    split
    · refine .inr ⟨_, _, _, rfl, ?_⟩
      have hnone : w.newJobs (w.withPool (w.inner.pool.forget (some .closed))) = [] :=
        World.newJobs_of_jobs rfl
      show (w.newJobs (w.withPool (w.inner.pool.forget (some .closed)))).map .asked ++ [refusal] = _
      rw [hnone]
      rfl
    · exact .inl ⟨_, rfl⟩

/-- What an operation has still to do: it is over, or is to be refused. -/
inductive Remains (p : Process) : Option Process → List Event → Prop where
  | gone : Remains p none []
  | refused : Remains p (some p) [refusal]

/-- An operation that is refused does what it has still to do, piece by piece. -/
theorem Remains.step {k : List Event} (h : Remains p (s.process? i) k) (hp : IsRefused p)
    (hlt : i < s.processes.length) (hw : Shut s.world) (hstep : Simulation.Step turn s c s') :
    ∃ k', Remains p (s'.process? i) k' ∧ own i (acts s c) ++ k' = k := by
  by_cases hc : c.IsTurn i
  · cases hstep with
    | moves hq hturn =>
      cases hc
      rw [hq] at h
      cases h
      obtain ⟨due?, hwaits⟩ | ⟨w', out, records, hends, -⟩ := hp.turn_cases s.now hw
      · cases hwaits.symm.trans hturn
      · cases hends.symm.trans hturn
    | ends hq hturn =>
      cases hc
      have hk := h
      rw [hq] at hk
      cases hk
      obtain ⟨due?, hwaits⟩ | ⟨w', out, records, -, hevents⟩ := hp.turn_cases s.now hw
      · cases hwaits.symm.trans hturn
      · refine ⟨[], ?_, ?_⟩
        · rw [System.process?_advance_self hlt]
          exact .gone
        · rw [own_acts_self hq, hevents, List.append_nil]
    | start | pass => cases hc
  · exact ⟨k, by rwa [hstep.process?_of_not_turn hc hlt], by rw [own_acts_of_not_turn hc]; rfl⟩

/-! ## Runs of a closed pool -/

/-- The pool is closed, and its users do as they may. -/
structure Closed (s : Use) : Prop where
  sound : Sound s
  shut : Shut s.world

theorem Closed.step (hs : Closed s) (hstep : Simulation.Step turn s c s')
    (hrule : Admitted s c s') : Closed s' where
  sound := hs.sound.step hstep hrule
  shut := by
    cases hs.sound.doing hstep hrule with
    | deed hp hdeed => exact hs.shut.deed hdeed
    | start | pass => exact hs.shut

theorem Closed.makesNone (hs : Closed s) (c : Choice Process) :
    ∀ a ∈ acts s c, a.2 ≠ .asked .create := by
  cases c with
  | start | pass => simp [acts]
  | turn i =>
    cases hp : s.process? i with
    | none => simp [acts, hp]
    | some p =>
      have hnone := hs.shut.makesNone s.now (hs.sound i p hp)
      rw [acts_turn hp]
      generalize turn s.now s.world p = t at hnone
      rintro a ha heq
      obtain ⟨e, he, rfl⟩ := List.mem_map.mp ha
      cases t with
      | waits => cases he
      | moves =>
        obtain ⟨job, hjob, rfl⟩ := List.mem_map.mp he
        cases heq
        exact hnone hjob
      | ends =>
        obtain he | he := List.mem_append.mp he
        · obtain ⟨job, hjob, rfl⟩ := List.mem_map.mp he
          cases heq
          exact hnone.2 hjob
        · cases List.mem_singleton.mp he
          cases heq

theorem Remains.run {k : List Event} (h : Remains p (s.process? i) k) (hp : IsRefused p)
    (hlt : i < s.processes.length) (hs : Closed s) (hrun : Chronicle turn Admitted acts s l t) :
    ∃ k', Remains p (t.process? i) k' ∧ own i l ++ k' = k := by
  induction hrun generalizing k with
  | nil => exact ⟨k, h, rfl⟩
  | @cons s c s' l t hstep hrule _ ih =>
    obtain ⟨k₁, hremains, hown⟩ := h.step hp hlt hs.shut hstep
    obtain ⟨k₂, hremains, hrest⟩ :=
      ih hremains (Nat.lt_of_lt_of_le hlt hstep.length_le) (hs.step hstep hrule)
    exact ⟨k₂, hremains, by rw [own_append, List.append_assoc, hrest, hown]⟩

/-! ## Calls from their beginning -/

/-- The process of a number does the given things and no others, as far as it has come,
and all of them when it is over. -/
structure Course (i : Nat) (all done : List Event) (t : Use) : Prop where
  soFar : done <+: all
  whole : t.process? i = none → done = all

theorem Remains.course {k all done : List Event} (h : Remains p (t.process? i) k)
    (hall : done ++ k = all) : Course i all done t where
  soFar := ⟨k, hall⟩
  whole hover := by
    rw [hover] at h
    cases h
    rwa [List.append_nil] at hall

/-- A call that goes on as an operation that is refused. -/
theorem Closed.course {q : Process} {records : List Log.Record} (hs : Closed s)
    (hp : s.process? i = some p) (hturn : turn s.now s.world p = .moves w q records)
    (hq : IsRefused q) (hstep : Simulation.Step turn s (.turn i) s')
    (hrun : Chronicle turn Admitted acts s' l t) :
    Course i ((s.world.newJobs w).map .asked ++ [refusal]) (own i (acts s (.turn i) ++ l)) t ∧
      ∃ k, Remains q (t.process? i) k := by
  have hlt := System.lt_length_of_process? hp
  have hremains : Remains q (s'.process? i) [refusal] := by
    rw [hstep.eq_of_moves hp hturn, System.process?_advance_self hlt]
    exact .refused
  have hacts : own i (acts s (.turn i)) = (s.world.newJobs w).map .asked := by
    rw [own_acts_self hp, hturn, events]
  obtain ⟨k, hlast, hown⟩ := hremains.run hq (Nat.lt_of_lt_of_le hlt hstep.length_le)
    (hs.step hstep trivial) hrun
  refine ⟨hlast.course ?_, k, hlast⟩
  rw [own_append, hacts, List.append_assoc, hown]

theorem turn_put {id : Nat} (hw : Shut w) (hheld : id ∈ w.held) :
    turn now w (.action (.put id false)) = .moves ((w.handIn id).assign now (.destroy id))
      (.operation (.rejecting .closed (w.task now (.destroy id)))) [] := by
  rw [turn, begin, World.handOver?_unforged, if_pos hheld]
  simp only [Pool.put, World.inner_handIn, hw.closed, if_true]
  rfl

theorem turn_release (now : Instant) (hw : Shut w) :
    turn now w (.action .release) = .ends w (.result .ok) [] [] := by
  rw [turn, begin, Pool.release, hw.closed]
  rfl

/-- A resource that could not be kept is done with when it was destroyed. -/
theorem exists_turn_rejecting (w : World) (work : Work)
    (hdue : isDue now work.due? = true) :
    ∃ w' out records,
      turn now w (.operation (.rejecting .closed work)) = .ends w' out [] records := by
  simp only [turn, Pool.turn, Supply.turn, if_pos hdue]
  exact ⟨_, _, _, rfl⟩

/-- The call of a number is over, or its turn is its last. -/
def MayEnd (i : Nat) (t : Use) : Prop :=
  t.process? i = none ∨ ∃ t', Simulation.Step turn t (.turn i) t' ∧ t'.process? i = none

/-- When a resource will have been destroyed. -/
def World.destroyedBy (w : World) (now : Instant) : Option Instant :=
  now.after? (w.inner.supply.latency .destroy)

theorem World.due?_task_destroy (w : World) (now : Instant) (id : Nat) :
    (w.task now (.destroy id)).due? = w.destroyedBy now := by
  simp only [task, Supply.give, Supply.settle, Supply.destroy, destroyedBy]
  split <;> rfl

theorem mayEnd_of_ends {records : List Log.Record} {out : Outcome}
    (hp : t.process? i = some p) (hturn : turn t.now t.world p = .ends w out [] records) :
    MayEnd i t :=
  .inr ⟨_, .ends hp hturn, System.process?_advance_self (System.lt_length_of_process? hp) _ _ _⟩

theorem Closed.get (hs : Closed s) (hp : s.process? i = some (.action .get))
    (hstep : Simulation.Step turn s (.turn i) s') (hrun : Chronicle turn Admitted acts s' l t) :
    Course i [refusal] (own i (acts s (.turn i) ++ l)) t ∧ MayEnd i t := by
  obtain ⟨hcourse, k, hremains⟩ := hs.course hp rfl .getting hstep hrun
  rw [World.newJobs_of_jobs rfl] at hcourse
  refine ⟨hcourse, ?_⟩
  have ht : Closed t := hrun.run.preserves Closed.step (hs.step hstep trivial)
  generalize hq : t.process? i = q? at hremains
  cases hremains with
  | gone => exact .inl hq
  | refused => exact mayEnd_of_ends hq (turn_getting t.now ht.shut)

theorem Closed.put {id : Nat} (hs : Closed s)
    (hp : s.process? i = some (.action (.put id false))) (hheld : id ∈ s.world.held)
    (hstep : Simulation.Step turn s (.turn i) s') (hrun : Chronicle turn Admitted acts s' l t) :
    Course i [.asked (.destroy id), refusal] (own i (acts s (.turn i) ++ l)) t ∧
      (isDue t.now (s.world.destroyedBy s.now) = true → MayEnd i t) := by
  obtain ⟨hcourse, k, hremains⟩ := hs.course hp (turn_put hs.shut hheld) (.rejecting _) hstep hrun
  rw [World.newJobs_destroy (w := s.world) (v := s.world.handIn id) rfl] at hcourse
  refine ⟨hcourse, fun hdue => ?_⟩
  generalize hq : t.process? i = q? at hremains
  cases hremains with
  | gone => exact .inl hq
  | refused =>
    rw [← s.world.due?_task_destroy s.now id] at hdue
    obtain ⟨w', out, records, hturn⟩ := exists_turn_rejecting t.world _ hdue
    exact mayEnd_of_ends hq hturn

theorem Closed.release (hs : Closed s) (hp : s.process? i = some (.action .release))
    (hstep : Simulation.Step turn s (.turn i) s') (hrun : Chronicle turn Admitted acts s' l t) :
    own i (acts s (.turn i) ++ l) = [.ended (.result .ok)] ∧ s'.world = s.world := by
  have hturn := turn_release s.now hs.shut
  have hlt := System.lt_length_of_process? hp
  have hacts : own i (acts s (.turn i)) = [.ended (.result .ok)] := by
    rw [own_acts_self hp, hturn, events, World.newJobs_of_jobs rfl]
    rfl
  have hs' : Closed s' := hs.step hstep trivial
  obtain rfl := hstep.eq_of_ends hp hturn
  refine ⟨?_, rfl⟩
  -- The call is over, so it does nothing more.
  have hover : Remains (.operation .getting) ((s.advance i s.world none []).process? i) [] := by
    rw [System.process?_advance_self hlt]
    exact .gone
  obtain ⟨k, -, hown⟩ := hover.run .getting (by simpa using hlt) hs' hrun
  rw [own_append, hacts, (List.append_eq_nil_iff.mp hown).1, List.append_nil]

/-! ## Shutdown -/

/-- What holds of a pool that was released, and of the calls that begin then. -/
structure Final (s : Use) : Prop where
  /-- The pool is closed and its queue is empty. -/
  shut : Shut s.world
  /-- Nobody has a resource made any more. -/
  makesNone : ∀ l t, Chronicle turn Admitted acts s l t → ∀ a ∈ l, a.2 ≠ .asked .create
  /-- Whoever wants a resource from now on is told that the pool is closed, and nothing
  else happens. -/
  get : ∀ i s' l t, s.process? i = some (.action .get) → Simulation.Step turn s (.turn i) s' →
    Chronicle turn Admitted acts s' l t →
      Course i [refusal] (own i (acts s (.turn i) ++ l)) t ∧ MayEnd i t
  /-- Whoever puts a resource back from now on has it destroyed, and is told that the
  pool is closed. -/
  put : ∀ i id s' l t, s.process? i = some (.action (.put id false)) → id ∈ s.world.held →
    Simulation.Step turn s (.turn i) s' → Chronicle turn Admitted acts s' l t →
      Course i [.asked (.destroy id), refusal] (own i (acts s (.turn i) ++ l)) t ∧
        (isDue t.now (s.world.destroyedBy s.now) = true → MayEnd i t)
  /-- Whoever releases the pool again does nothing. -/
  release : ∀ i s' l t, s.process? i = some (.action .release) →
    Simulation.Step turn s (.turn i) s' → Chronicle turn Admitted acts s' l t →
      own i (acts s (.turn i) ++ l) = [.ended (.result .ok)] ∧ s'.world = s.world
  /-- When nothing is under way and nobody holds a resource, all that were made were
  destroyed, each of them once. -/
  settled : AtRest s → s.world.held = [] →
    s.world.destroyed.Perm s.world.made ∧ s.world.made.Nodup ∧
      s.world.inner.pool.opened = 0 ∧
      s.world.inner.pool.stats.created = s.world.inner.pool.stats.destroyed

theorem AtRest.inHands_eq_nil (hrest : AtRest s) : inHands s = [] := by
  refine List.flatMap_eq_nil_iff.mpr fun p hp => ?_
  obtain ⟨i, hi⟩ := System.exists_process?_of_mem_running hp
  have hnone := hrest i p hi
  cases p with
  | operation => cases hnone
  | action | checking | asleep => rfl

/-- What was made and is not idle, held or in the hands of an operation was destroyed. -/
theorem Custody.perm_destroyed (h : Custody s) (hidle : s.world.inner.pool.idle = [])
    (hheld : s.world.held = []) (hrest : AtRest s) : s.world.destroyed.Perm s.world.made := by
  rwa [Custody, hrest.inHands_eq_nil, World.found, World.idleIds, hidle, hheld, List.map_nil,
    List.nil_append, List.nil_append, List.append_nil] at h

theorem Balanced.opened_eq_zero (h : Balanced s) (hidle : s.world.inner.pool.idle = [])
    (hheld : s.world.held = []) (hrest : AtRest s) : s.world.inner.pool.opened = 0 := by
  rw [h.opened, World.kept, hidle, hheld, hrest.tally_unaccounted, hrest.tally_reserved]
  rfl

theorem Fresh.run_tight (h : Fresh s) (hrun : Run turn Admitted s s') : Tight s'.world := by
  refine h.preserves (I := fun t => Tight t.world) (fun ht hdoing => ?_) ?_ hrun
  · cases hdoing with
    | deed hp hdeed => exact hdeed.tight ht
    | start | pass => exact ht
  · exact fun hclosed => absurd (h.unclosed.symm.trans hclosed) Bool.false_ne_true

/-- When somebody releases a pool, it is closed for good. -/
theorem Fresh.closed_of_release {n : Nat} (h : Fresh s) (hrun : Run turn Admitted s s')
    (hp : s'.process? n = some (.action .release)) (hstep : Simulation.Step turn s' (.turn n) t) :
    Closed t := by
  have hs := h.run_sound hrun
  refine ⟨hs.step hstep trivial, ?_⟩
  cases hs.doing hstep trivial with
  | deed hp' hdeed =>
    cases hp.symm.trans hp'
    exact hdeed.shut_of_release (h.run_tight hrun)

/-- Shutdown is final and complete: from the moment at which a pool is released on, all
of the above holds, however the operations come in between each other and whatever jobs
of the supply fail. -/
theorem shutdown_final {s₀ s₁ s₂ : Use} {n : Nat} (hfresh : Fresh s₀)
    (hbefore : Run turn Admitted s₀ s₁) (hrelease : s₁.process? n = some (.action .release))
    (hstep : Simulation.Step turn s₁ (.turn n) s₂) (hafter : Run turn Admitted s₂ s) :
    Final s := by
  have hrun : Run turn Admitted s₀ s := (hbefore.tail hstep trivial).trans hafter
  have hclosed : Closed s :=
    hafter.preserves Closed.step (hfresh.closed_of_release hbefore hrelease hstep)
  refine ⟨hclosed.shut, fun l t h => ?_, fun i s' l t => hclosed.get,
    fun i id s' l t => hclosed.put, fun i s' l t => hclosed.release, fun hrest hheld => ?_⟩
  · exact (h.notes (fun {t c t'} ht hst hrule => ⟨ht.step hst hrule, ht.makesNone c⟩) hclosed).2
  · have hbalanced := hfresh.run_balanced hrun
    have hidle := hclosed.shut.idle
    have hopened := hbalanced.opened_eq_zero hidle hheld hrest
    refine ⟨(hfresh.run_custody hrun).perm_destroyed hidle hheld hrest, List.nodup_range' ..,
      hopened, ?_⟩
    rw [hbalanced.created_of_atRest hrest, hopened, Nat.zero_add]

/-- Somebody waits for a resource, the idle one of an ailing pool is destroyed, and the
pool is released while another one is made.  It is handed out and put back then. -/
theorem shutdown_final_ailing :
    ∃ s₁ s₂ s, Fresh ailing ∧ Run turn Admitted ailing s₁ ∧
      s₁.process? 1 = some (.action .release) ∧ Simulation.Step turn s₁ (.turn 1) s₂ ∧
      Run turn Admitted s₂ s ∧ Final s ∧ s.running = [] ∧ s.world.held = [] ∧
      s.world.destroyed = [1, 2] := by
  obtain ⟨s₁, s₂, s, hbefore, hrelease, hstep, hafter, hrest⟩ :
      ∃ s₁ s₂ s, Run turn Admitted ailing s₁ ∧ s₁.process? 1 = some (.action .release) ∧
        Simulation.Step turn s₁ (.turn 1) s₂ ∧ Run turn Admitted s₂ s ∧
        s.running = [] ∧ s.world.held = [] ∧ s.world.destroyed = [1, 2] :=
    ⟨_, _, _,
      .of_follow? [.start (.action .get), .turn 0, .turn 0, .turn 0, .turn 0, .turn 0,
        .start (.action .release)] rfl,
      rfl, .of_step? rfl,
      .of_follow? [.turn 0, .start (.action (.put 2 false)), .turn 2, .turn 2] rfl, rfl, rfl, rfl⟩
  exact ⟨s₁, s₂, s, fresh_ailing, hbefore, hrelease, hstep, hafter,
    shutdown_final fresh_ailing hbefore hrelease hstep hafter, hrest⟩

end Pool.Scenario

end Leasehold
