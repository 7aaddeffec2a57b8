import Leasehold.Proofs.Pool.Capacity
import Leasehold.Proofs.Pool.Filling
import Leasehold.Proofs.Simulation.Chronicle

/-!
# The queue of a pool

What is put back comes in at the end of the queue, and what is taken leaves it in
front.  A chronicle of `passages`, which are read off what the processes do, says so
for a whole run (`Passes.run`).

On a clock that does not go back the queue is `Ordered`: whoever came first is in
front.  So if the one in front was not idle for too long, none of the others was
(`Ordered.recent`), and nobody who takes it has to look at them.
-/

namespace Leasehold.Pool

/-! ## Order in the queue -/

/-- Resources of which each came no later than those behind it, and none later than a
reading. -/
structure Ordered (reading : Instant) (l : List Idle) : Prop where
  sorted : l.Pairwise fun e e' => e.returnedAt ≤ e'.returnedAt
  past : ∀ e ∈ l, e.returnedAt ≤ reading

/-- A resource was not idle longer than it may be. -/
def Recent (p : Pool) (reading : Instant) (e : Idle) : Prop :=
  p.config.idleTimeout ≠ .zero → reading.since e.returnedAt ≤ p.config.idleTimeout

/-- No resource in the queue was idle longer than it may be. -/
def AllRecent (p : Pool) (reading : Instant) : Prop := ∀ e ∈ p.idle, p.Recent reading e

section

variable {p : Pool} {reading reading' : Instant} {l l' rest : List Idle} {e e' : Idle}

namespace Ordered

theorem nil : Ordered reading [] := ⟨.nil, by simp⟩

theorem of_suffix (h : Ordered reading l) (hl : l' <:+ l) : Ordered reading l' :=
  ⟨h.sorted.sublist hl.sublist, fun e he => h.past e (hl.subset he)⟩

theorem later (h : Ordered reading l) (hle : reading ≤ reading') : Ordered reading' l :=
  ⟨h.sorted, fun e he => Nat.le_trans (h.past e he) hle⟩

/-- Who comes now comes last. -/
theorem concat (h : Ordered reading l) (id : Nat) : Ordered reading (l ++ [⟨id, reading⟩]) where
  sorted := by
    refine List.pairwise_append.mpr ⟨h.sorted, List.pairwise_singleton .., fun e he e' he' => ?_⟩
    rw [List.mem_singleton.mp he']
    exact h.past e he
  past e he := by
    obtain he | he := List.mem_append.mp he
    · exact h.past e he
    · rw [List.mem_singleton.mp he]
      exact Nat.le_refl _

end Ordered

theorem isZero_iff {d : Duration} : d.isZero = true ↔ d = .zero := by
  rw [Duration.isZero, beq_iff_eq, Duration.ext_iff]
  rfl

/-- What a pool looks for is what was idle longer than it may be. -/
theorem isStale_eq_false_iff : p.isStale reading e = false ↔ p.Recent reading e := by
  rw [isStale, Bool.and_eq_false_iff, decide_eq_false_iff_not, Config.evictsIdle,
    Bool.not_eq_false', isZero_iff, Recent]
  by_cases htimeout : p.config.idleTimeout = .zero
  · simp [htimeout]
  · simp only [htimeout, false_or, ne_eq, not_false_eq_true, forall_const]
    exact Nat.not_lt

/-- Who came later was idle for less time. -/
theorem Recent.of_le (h : p.Recent reading e) (hle : e.returnedAt ≤ e'.returnedAt) :
    p.Recent reading e' := by
  intro htimeout
  have hrecent : reading.nanos - e.returnedAt.nanos ≤ p.config.idleTimeout.nanos := h htimeout
  have hle : e.returnedAt.nanos ≤ e'.returnedAt.nanos := hle
  show reading.nanos - e'.returnedAt.nanos ≤ p.config.idleTimeout.nanos
  omega

/-- Who comes no earlier than a reading was not idle at all then. -/
theorem recent_of_le (id : Nat) (h : reading ≤ reading') : p.Recent reading ⟨id, reading'⟩ := by
  intro _
  have hle : reading.nanos ≤ reading'.nanos := h
  show reading.nanos - reading'.nanos ≤ p.config.idleTimeout.nanos
  omega

/-- If the first one in a queue was not idle for too long, none of the others was. -/
theorem Ordered.recent (h : Ordered reading' (e :: rest)) (he : p.Recent reading e) :
    ∀ e' ∈ rest, p.Recent reading e' := fun _ he' =>
  he.of_le ((List.pairwise_cons.mp h.sorted).1 _ he')

theorem recent_congr {p' : Pool} (h : p'.config = p.config) :
    p'.Recent reading e ↔ p.Recent reading e := by
  rw [Recent, Recent, h]

end

namespace Scenario

open Simulation

/-! ## What a deed does to the queue -/

variable {now : Instant} {w w' : World} {p : Process} {next? : Option Process}
  {out? : Option Outcome} {count : Nat} {rest : List Idle} {s s' s'' t : Use}
  {c : Choice Process} {i : Nat}

/-- What is left of a queue is what was behind, or somebody came in last. -/
theorem Deed.queue (h : Deed now w p w' next? out?) :
    w'.inner.pool.idle <:+ w.inner.pool.idle ∨
      ∃ id, w'.inner.pool.idle = w.inner.pool.idle ++ [⟨id, w.reading now⟩] := by
  cases h with
  | aside _ halike => exact .inl (halike.pool ▸ List.suffix_rfl)
  | taken _ hidle | outdated _ hidle | inspected _ hidle =>
    refine .inl ?_
    rw [hidle]
    exact List.suffix_cons ..
  | @stored id => exact .inr ⟨id, rfl⟩
  | released _ hdrains =>
    refine .inl ?_
    rw [hdrains.pool]
    exact List.nil_suffix
  | drained hdrains =>
    refine .inl ?_
    rw [hdrains.pool]
    exact List.suffix_rfl
  | _ => exact .inl List.suffix_rfl

theorem Deed.ordered (h : Deed now w p w' next? out?)
    (hw : Ordered (w.reading now) w.inner.pool.idle) :
    Ordered (w.reading now) w'.inner.pool.idle := by
  obtain hleft | ⟨id, hcame⟩ := h.queue
  · exact hw.of_suffix hleft
  · rw [hcame]
    exact hw.concat id

/-- Whoever was not idle for too long at a reading of the past stays so. -/
theorem Deed.allRecent {reading : Instant} (h : Deed now w p w' next? out?)
    (hle : reading ≤ w.reading now) (hw : w.inner.pool.AllRecent reading) :
    w'.inner.pool.AllRecent reading := by
  intro e he
  rw [recent_congr h.config]
  obtain hleft | ⟨id, hcame⟩ := h.queue
  · exact hw e (hleft.subset he)
  · rw [hcame, List.mem_append, List.mem_singleton] at he
    obtain he | rfl := he
    · exact hw e he
    · exact recent_of_le id hle

/-! ## Who comes and goes -/

/-- A resource comes into the queue, or leaves it. -/
inductive Passage where
  | comes (id : Nat)
  | goes (id : Nat)

/-- The resource that a job is about. -/
def subject (work : Work) : List Nat :=
  match work.job with
  | .create => []
  | .check id | .destroy id => [id]

/-- The resource that a process has put in the queue when it ends so on its turn. -/
def comes : Process → Option Outcome → List Nat
  | .action (.put id _), some (.result .ok) => [id]
  | _, _ => []

/-- The resources that a process has taken out of the queue when it goes on so after its
turn, or ends so. -/
def goes : Process → Option Process → Option Outcome → List Nat
  | .operation .getting, _, some (.result (.resource id)) => [id]
  | .operation .getting, some (.operation (.checking _ work)), _ => subject work
  | .operation .getting, some (.operation (.evicting _ work)), _ => subject work
  | .action .release, some (.operation (.releasing rest _ work)), _ =>
      subject work ++ rest.map (·.id)
  | _, _, _ => []

/-- Who comes and goes when a process goes on so after its turn, or ends so. -/
def passagesOf (p : Process) (next? : Option Process) (out? : Option Outcome) : List Passage :=
  (comes p out?).map .comes ++ (goes p next? out?).map .goes

/-- Who comes and goes by a choice. -/
def passages (s : Use) : Choice Process → List Passage
  | .turn i =>
      match s.process? i with
      | none => []
      | some p =>
          match turn s.now s.world p with
          | .waits _ => []
          | .moves _ q _ => passagesOf p (some q) none
          | .ends _ out _ _ => passagesOf p none (some out)
  | .start _ | .pass _ => []

/-- Those who came, in order. -/
def arrivals (l : List Passage) : List Nat :=
  l.filterMap fun a => match a with | .comes id => some id | .goes _ => none

/-- Those who went, in order. -/
def departures (l : List Passage) : List Nat :=
  l.filterMap fun a => match a with | .comes _ => none | .goes id => some id

theorem subject_task (w : World) (now : Instant) (job : Job) : (w.task now job).job = job := rfl

theorem Process.IsAside.comes_goes (h : p.IsAside) (next? : Option Process)
    (out? : Option Outcome) : comes p out? = [] ∧ goes p next? out? = [] := by
  cases p with
  | operation => cases h
  | checking | asleep => exact ⟨rfl, rfl⟩
  | action a =>
    cases a with
    | get | put | close | release => cases h
    | _ => exact ⟨rfl, rfl⟩

/-- Whoever is idle when the pool is released goes. -/
theorem Drains.goes_release {rest : List Idle} (h : Drains now w count rest w' next? out?) :
    goes (.action .release) next? out? = rest.map (·.id) := by
  cases h <;> rfl

/-- Whoever comes is behind all others, and whoever goes was in front of them. -/
theorem Deed.fifo (h : Deed now w p w' next? out?) :
    w.idleIds ++ comes p out? = goes p next? out? ++ w'.idleIds := by
  cases h with
  | aside haside halike =>
    obtain ⟨hcomes, hgoes⟩ := haside.comes_goes next? out?
    rw [hcomes, hgoes, World.idleIds, World.idleIds, halike.pool, List.append_nil, List.nil_append]
  | taken _ hidle | outdated _ hidle | inspected _ hidle =>
    simp [World.idleIds, hidle, comes, goes, subject, subject_task]
  | stored => simp [World.idleIds, comes, goes, Pool.enqueue]
  | released _ hdrains =>
    rw [hdrains.goes_release, World.idleIds, World.idleIds, hdrains.pool]
    rfl
  | drained hdrains =>
    rw [World.idleIds, World.idleIds, hdrains.pool]
    simp [comes, goes]
  | _ => simp [World.idleIds, comes, goes]

/-! ## Runs on a clock that does not go back -/

/-- What the clock of the pool shows. -/
def reading (s : Use) : Instant := s.world.reading s.now

/-- The steps of a rule over which the clock of the pool does not go back. -/
def Onward (rule : Rule World Process) : Rule World Process := fun s c s' =>
  rule s c s' ∧ reading s ≤ reading s'

instance (rule : Rule World Process) [∀ s c s', Decidable (rule s c s')] (s s' : Use)
    (c : Choice Process) : Decidable (Onward rule s c s') :=
  inferInstanceAs (Decidable (_ ∧ _))

/-- The users of a pool do as they may, and its queue is in order. -/
structure Tidy (s : Use) : Prop where
  sound : Sound s
  ordered : Ordered (reading s) s.world.inner.pool.idle

theorem Tidy.step (hs : Tidy s) (hstep : Simulation.Step turn s c s')
    (hrule : Onward Admitted s c s') : Tidy s' where
  sound := hs.sound.step hstep hrule.1
  ordered := by
    obtain ⟨hadmitted, hle⟩ := hrule
    refine Ordered.later ?_ hle
    cases hs.sound.doing hstep hadmitted with
    | deed hp hdeed => exact hdeed.ordered hs.ordered
    | start | pass => exact hs.ordered

theorem arrivals_append (l l' : List Passage) : arrivals (l ++ l') = arrivals l ++ arrivals l' :=
  List.filterMap_append

theorem departures_append (l l' : List Passage) :
    departures (l ++ l') = departures l ++ departures l' := List.filterMap_append

theorem arrivals_passagesOf (p : Process) (next? : Option Process) (out? : Option Outcome) :
    arrivals (passagesOf p next? out?) = comes p out? := by
  simp [arrivals, passagesOf, List.filterMap_append, List.filterMap_map]

theorem departures_passagesOf (p : Process) (next? : Option Process) (out? : Option Outcome) :
    departures (passagesOf p next? out?) = goes p next? out? := by
  simp [departures, passagesOf, List.filterMap_append, List.filterMap_map]

theorem Sound.fifo (hs : Sound s) (hstep : Simulation.Step turn s c s') :
    s.world.idleIds ++ arrivals (passages s c) = departures (passages s c) ++ s'.world.idleIds := by
  cases hstep with
  | moves hp hturn =>
    have hdeed := hs.isDeed hp
    rw [hturn] at hdeed
    simp only [passages, hp, hturn, arrivals_passagesOf, departures_passagesOf]
    exact hdeed.fifo
  | ends hp hturn =>
    have hdeed := hs.isDeed hp
    rw [hturn] at hdeed
    simp only [passages, hp, hturn, arrivals_passagesOf, departures_passagesOf]
    exact hdeed.2.fifo
  | start | pass => exact List.append_nil _

/-- Those who were idle and those who came are those who went and those who are idle, in
this order. -/
theorem Tidy.fifo {l : List Passage} (hs : Tidy s)
    (hrun : Chronicle turn (Onward Admitted) passages s l t) :
    s.world.idleIds ++ arrivals l = departures l ++ t.world.idleIds := by
  induction hrun with
  | nil => exact List.append_nil _
  | cons hstep hrule _ ih =>
    rw [arrivals_append, departures_append, ← List.append_assoc, hs.sound.fifo hstep,
      List.append_assoc, List.append_assoc, ih (hs.step hstep hrule)]

/-! ## Taking a resource out of the queue -/

/-- A process takes the resource in front of the queue, and hands it out or looks at it
first. -/
structure Takes (s : Use) (i : Nat) (e : Idle) (s' : Use) : Prop where
  step : Simulation.Step turn s (.turn i) s'
  before : s.process? i = some (.operation .getting)
  front : s.world.inner.pool.idle = e :: s'.world.inner.pool.idle
  after : s'.process? i = none ∨ ∃ work, s'.process? i = some (.operation (.checking e work))

/-- Whoever takes the resource in front has seen that it was not idle for too long. -/
theorem Deed.recent_of_takes {e : Idle} (h : Deed now w (.operation .getting) w' next? out?)
    (hfront : w.inner.pool.idle = e :: w'.inner.pool.idle)
    (hnext : next? = none ∨ ∃ work, next? = some (.operation (.checking e work))) :
    w.inner.pool.Recent (w.reading now) e := by
  refine isStale_eq_false_iff.mp ?_
  cases h with
  | aside haside => cases haside
  | refused | exhausted => exact (List.cons_ne_self _ _ hfront.symm).elim
  | reserved | outdated => obtain hnext | ⟨_, hnext⟩ := hnext <;> cases hnext
  | taken _ hidle hfresh | inspected _ hidle hfresh =>
    cases hidle.symm.trans hfront
    exact hfresh

theorem Sound.deed_of_turn (hs : Sound s) (h : Simulation.Step turn s (.turn i) s') :
    ∃ p w' next? out?, s.process? i = some p ∧ Deed s.now s.world p w' next? out? ∧
      s'.process? i = next? ∧ s' = s.advance i w' next? [] := by
  cases hs.doing h trivial with
  | deed hp hdeed =>
    exact ⟨_, _, _, _, hp, hdeed,
      System.process?_advance_self (System.lt_length_of_process? hp) _ _ _, rfl⟩

/-- What is behind a resource that is taken was not idle for too long. -/
theorem Takes.allRecent {e : Idle} (h : Takes s i e s') (hs : Tidy s) :
    s'.world.inner.pool.AllRecent (reading s) := by
  obtain ⟨p, w', next?, out?, hp, hdeed, hnext, rfl⟩ := hs.sound.deed_of_turn h.step
  cases h.before.symm.trans hp
  have hfront : s.world.inner.pool.idle = e :: w'.inner.pool.idle := h.front
  have hordered := hs.ordered
  have hafter := h.after
  rw [hfront] at hordered
  rw [hnext] at hafter
  intro e' he'
  rw [System.world_advance, recent_congr hdeed.config]
  exact hordered.recent (hdeed.recent_of_takes hfront hafter) e' he'

/-- No operation sets the clock of the pool. -/
theorem Deed.reading_eq {o : Pool.Process} (h : Deed now w (.operation o) w' next? out?) :
    w'.reading now = w.reading now := by
  cases h with
  | aside haside => cases haside
  | drained hdrains => cases hdrains <;> rfl
  | _ => rfl

theorem Takes.reading_le {e : Idle} (h : Takes s i e s') (hs : Sound s) :
    reading s ≤ reading s' := by
  obtain ⟨p, w', next?, out?, hp, hdeed, -, rfl⟩ := hs.deed_of_turn h.step
  cases h.before.symm.trans hp
  exact Nat.le_of_eq (congrArg Instant.nanos hdeed.reading_eq.symm)

/-- The process of a number has no turn, and the clock of the pool does not go back. -/
def Without (i : Nat) : Rule World Process := Onward fun s c s' => Admitted s c s' ∧ ¬ c.IsTurn i

/-- A process took a resource out of the queue between two systems, and has had no turn
since then. -/
structure Taken (s₁ : Use) (i : Nat) (e : Idle) (s₂ s₃ s : Use) : Prop where
  before : Run turn (Onward Admitted) s₁ s₂
  takes : Takes s₂ i e s₃
  since : Run turn (Without i) s₃ s

theorem Drains.not_checking {rest : List Idle} {e : Idle} {work : Work}
    (h : Drains now w count rest w' next? out?) :
    next? ≠ some (.operation (.checking e work)) := by
  cases h <;> simp

/-- Whoever looks at a resource has taken it out of the queue. -/
theorem Deed.takes_of_checking {e : Idle} {work : Work} (h : Deed now w p w' next? out?)
    (hnext : next? = some (.operation (.checking e work))) :
    p = .operation .getting ∧ w.inner.pool.idle = e :: w'.inner.pool.idle := by
  cases h with
  | aside _ _ haside => cases haside _ hnext
  | released _ hdrains | drained hdrains => exact absurd hnext hdrains.not_checking
  | inspected _ hidle =>
    cases hnext
    exact ⟨rfl, hidle⟩
  | _ => cases hnext

/-- An operation that goes on without a turn was under way before. -/
theorem Sound.operation_of_not_turn {q : Pool.Process} (hs : Sound s)
    (hstep : Simulation.Step turn s c s') (hrule : Admitted s c s') (hc : ¬ c.IsTurn i)
    (hp : s'.process? i = some (.operation q)) : s.process? i = some (.operation q) := by
  cases hs.doing hstep hrule with
  | deed =>
    obtain ⟨-, hq⟩ | ⟨rfl, -⟩ | ⟨k, -, hnone⟩ := System.process?_advance_cases hp
    · exact hq
    · exact absurd rfl hc
    · cases hnone
  | start hadmitted =>
    obtain hq | ⟨-, rfl⟩ := System.process?_add_cases hp
    · exact hq
    · cases hadmitted
  | pass => exact hp

/-- Whoever looks at a resource took it out of the queue when it had its last turn. -/
theorem exists_taken {s₁ : Use} {e : Idle} {work : Work} (hs : Tidy s₁) (hquiet : s₁.running = [])
    (hrun : Run turn (Onward Admitted) s₁ s)
    (hp : s.process? i = some (.operation (.checking e work))) :
    ∃ s₂ s₃, Taken s₁ i e s₂ s₃ s := by
  induction hrun with
  | refl =>
    have hrunning := System.mem_running hp
    rw [hquiet] at hrunning
    cases hrunning
  | @tail s c s' hrun hstep hrule ih =>
    have ht : Tidy s := hrun.preserves Tidy.step hs
    by_cases hc : c.IsTurn i
    · cases c with
      | start | pass => cases hc
      | turn j =>
        cases hc
        obtain ⟨p, w', next?, out?, hq, hdeed, hnext, rfl⟩ := ht.sound.deed_of_turn hstep
        obtain ⟨rfl, hfront⟩ := hdeed.takes_of_checking (hnext.symm.trans hp)
        exact ⟨s, _, hrun, ⟨hstep, hq, hfront, .inr ⟨work, hp⟩⟩, .refl⟩
    · obtain ⟨s₂, s₃, htaken⟩ := ih (ht.sound.operation_of_not_turn hstep hrule.1 hc hp)
      exact ⟨s₂, s₃, htaken.before, htaken.takes,
        htaken.since.tail hstep ⟨⟨hrule.1, hc⟩, hrule.2⟩⟩

/-- A process hands out an idle resource that it took out of the queue in a system
`s₂`: at once, or after it looked at it and had no turn meanwhile. -/
inductive HandsOutIdle (s₂ : Use) (i : Nat) (e : Idle) : Use → Use → Prop where
  | taken {u} : Takes s₂ i e u → HandsOut s₂ i e.id u → HandsOutIdle s₂ i e s₂ u
  | checked {s₃ u u'} :
      Takes s₂ i e s₃ → Run turn (Without i) s₃ u → HandsOut u i e.id u' →
      HandsOutIdle s₂ i e u u'

/-- Whatever is handed out was made for it, or was taken out of the queue. -/
theorem HandsOut.handsOutIdle {s₁ : Use} {id : Nat} (h : HandsOut s i id s') (hs : Tidy s₁)
    (hquiet : s₁.running = []) (hrun : Run turn (Onward Admitted) s₁ s) :
    (∃ work, s.process? i = some (.operation (.creating work))) ∨
      ∃ s₂ e, Run turn (Onward Admitted) s₁ s₂ ∧ e.id = id ∧ HandsOutIdle s₂ i e s s' := by
  have ht : Tidy s := hrun.preserves Tidy.step hs
  obtain ⟨p, w, hp, hdeed, rfl⟩ := h.deed ht.sound
  generalize hout? : some (Outcome.result (.resource id)) = out? at hdeed
  cases hdeed with
  | aside _ _ _ hnot => exact absurd hout?.symm (hnot id)
  | made => exact .inl ⟨_, hp⟩
  | @taken e rest hopen hidle =>
    cases hout?
    have hover := System.process?_advance_self (System.lt_length_of_process? hp)
    exact .inr ⟨s, e, hrun, rfl, .taken ⟨h.step, hp, hidle, .inl (hover _ _ _)⟩ h⟩
  | @sound e =>
    cases hout?
    obtain ⟨s₂, s₃, htaken⟩ := exists_taken hs hquiet hrun hp
    exact .inr ⟨s₂, e, htaken.before, rfl, .checked htaken.takes htaken.since h⟩
  | released _ hdrains | drained hdrains => exact absurd hout?.symm hdrains.not_resource
  | @disposed reason => cases reason <;> cases hout?
  | @closed work => cases houtcome : work.outcome <;> rw [houtcome] at hout? <;> cases hout?
  | _ => cases hout?

/-- A system after a reading, with a queue in which nobody was idle for too long then. -/
structure After (r : Instant) (s : Use) : Prop where
  tidy : Tidy s
  le : r ≤ reading s
  recent : s.world.inner.pool.AllRecent r

theorem After.recent_turn {r : Instant} (h : After r s)
    (hstep : Simulation.Step turn s (.turn i) s') : s'.world.inner.pool.AllRecent r := by
  obtain ⟨p, w', next?, out?, -, hdeed, -, rfl⟩ := h.tidy.sound.deed_of_turn hstep
  exact hdeed.allRecent h.le h.recent

theorem After.step {r : Instant} (h : After r s) (hstep : Simulation.Step turn s c s')
    (hrule : Onward Admitted s c s') : After r s' where
  tidy := h.tidy.step hstep hrule
  le := Nat.le_trans h.le hrule.2
  recent := by
    cases c with
    | turn => exact h.recent_turn hstep
    | start | pass =>
      cases hstep
      exact h.recent

/-- What is left in the queue at a hand-out was not idle for too long when the resource
that is handed out was taken. -/
theorem HandsOutIdle.allRecent {s₂ : Use} {e : Idle} (h : HandsOutIdle s₂ i e s s')
    (hs : Tidy s₂) : s'.world.inner.pool.AllRecent (reading s₂) := by
  cases h with
  | taken htakes => exact htakes.allRecent hs
  | checked htakes hrun hout =>
    have hle := htakes.reading_le hs.sound
    have hafter : After (reading s₂) _ :=
      ⟨hs.step htakes.step ⟨trivial, hle⟩, hle, htakes.allRecent hs⟩
    have hlast := hrun.preserves (fun h hstep hrule => After.step h hstep ⟨hrule.1.1, hrule.2⟩)
      hafter
    exact hlast.recent_turn hout.step

/-! ## The order of a pool that was just filled -/

/-- The resources that a process has made for a pool, in order. -/
def Process.filled : Process → List Idle
  | .operation (.filling _ made _) => made.reverse
  | _ => []

theorem Empties.stamped {e : ResourceError} {rest : List Idle}
    (h : Empties now w e rest w' next? out?) :
    w'.inner.pool = w.inner.pool ∧ ∀ q, next? = some q → q.filled = [] := by
  cases h with
  | empty => exact ⟨rfl, by simp⟩
  | next => exact ⟨rfl, by rintro _ ⟨⟩; rfl⟩

/-- What is made comes after what was made before. -/
theorem Fills.ordered {o : Pool.Process} (h : Fills now w o w' next? out?)
    (hidle : Ordered (w.reading now) w.inner.pool.idle)
    (hfilled : Ordered (w.reading now) (Process.operation o).filled) :
    Ordered (w.reading now) w'.inner.pool.idle ∧
      ∀ q, next? = some q → Ordered (w.reading now) q.filled := by
  cases h with
  | filled =>
    refine ⟨?_, by simp⟩
    rw [World.pool_withPool, List.reverse_cons]
    exact hfilled.concat _
  | more =>
    refine ⟨hidle, ?_⟩
    rintro _ ⟨⟩
    rw [Process.filled, List.reverse_cons]
    exact hfilled.concat _
  | broken _ hempties | emptied hempties =>
    obtain ⟨hpool, hnone⟩ := hempties.stamped
    refine ⟨hpool ▸ hidle, fun q hq => ?_⟩
    rw [hnone q hq]
    exact .nil

/-- The queue is in order, and so is what the process of a number has made for it. -/
structure Stamped (i : Nat) (s : Use) : Prop where
  idle : Ordered (reading s) s.world.inner.pool.idle
  filled : ∀ p, s.process? i = some p → Ordered (reading s) p.filled

theorem Stamped.leaves {config : Config} {j : Nat} (h : Stamped i s) (hs : IsFilled config i s)
    (hp : s.process? j = some p) :
    Leaves (fun w' next? _ => Ordered (reading s) w'.inner.pool.idle ∧
      ∀ q, (s.advance j w' next? []).process? i = some q → Ordered (reading s) q.filled)
      (turn s.now s.world p) := by
  by_cases hne : j = i
  · subst hne
    have hfilling := hs.filling
    rw [hp] at hfilling
    have hstep : ∀ (o : Pool.Process), p = .operation o → ∀ w' next? out?,
        Fills s.now s.world o w' next? out? → Ordered (reading s) w'.inner.pool.idle ∧
          ∀ q, (s.advance j w' next? []).process? j = some q → Ordered (reading s) q.filled := by
      rintro o rfl w' next? out? hfills
      rw [System.process?_advance_self hs.lt]
      exact hfills.ordered h.idle (h.filled _ hp)
    cases hfilling with
    | making => exact filling_fills.mono (hstep _ rfl)
    | emptying => exact emptying_fills.mono (hstep _ rfl)
  · have haside := hs.aside j p hne hp
    refine (turn_isDeed haside.fit).mono fun w' next? out? hdeed => ?_
    rw [System.process?_advance_of_ne hs.lt (Ne.symm hne), (hdeed.of_aside haside).1.pool]
    exact ⟨h.idle, h.filled⟩

theorem Stamped.step {config : Config} (h : Stamped i s) (hs : IsFilled config i s)
    (hstep : Simulation.Step turn s c s') (hrule : Onward Attended s c s') : Stamped i s' := by
  suffices hstamped : Ordered (reading s) s'.world.inner.pool.idle ∧
      ∀ p, s'.process? i = some p → Ordered (reading s) p.filled from
    ⟨hstamped.1.later hrule.2, fun p hp => (hstamped.2 p hp).later hrule.2⟩
  cases hstep with
  | moves hp hturn =>
    have hleaves := h.leaves hs hp
    rwa [hturn] at hleaves
  | ends hp hturn =>
    have hleaves := h.leaves hs hp
    rw [hturn] at hleaves
    obtain ⟨rfl, hleaves⟩ := hleaves
    exact hleaves
  | start p =>
    rw [System.process?_add_of_lt hs.lt]
    exact ⟨h.idle, h.filled⟩
  | pass => exact ⟨h.idle, h.filled⟩

theorem Unfilled.stamped (h : Unfilled s) : Stamped s.processes.length (begun s) where
  idle := by
    show Ordered _ s.world.inner.pool.idle
    rw [h.pool]
    exact .nil
  filled p hp := by
    have hself : (begun s).process? s.processes.length = some (filler s) :=
      System.process?_add_self { s with world := s.world.assign s.now .create } (filler s)
    cases hself.symm.trans hp
    exact .nil

/-- The resources of a pool that was filled came into its queue in the order in which
they were made. -/
theorem Unfilled.tidy (h : Unfilled s) (hrun : Run turn (Onward Attended) (begun s) s')
    (hfresh : Fresh s') : Tidy s' where
  sound := hfresh.sound
  ordered := by
    have hstamped := hrun.preserves
      (I := fun t => IsFilled s.world.inner.pool.config s.processes.length t ∧
        Stamped s.processes.length t)
      (fun ⟨hfilled, hstamped⟩ hstep hrule =>
        ⟨hfilled.step hstep hrule.1, hstamped.step hfilled hstep hrule⟩)
      ⟨h.isFilled, h.stamped⟩
    exact hstamped.2.idle

/-! ## First in, first out -/

/-- A pool is filled and used in any way, on a clock that does not go back.  Its queue is
in order all the time.  The resources leave it in the order in which they were made for
it or put back.  When an idle resource is handed out, no resource left in the queue was
idle for too long when that one was taken out. -/
theorem first_in_first_out {s₀ s₁ : Use} {l : List Passage} (hunfilled : Unfilled s₀)
    (hfilled : Run turn (Onward Attended) (begun s₀) s₁) (hfresh : Fresh s₁)
    (hrun : Chronicle turn (Onward Admitted) passages s₁ l s) :
    Ordered (reading s) s.world.inner.pool.idle ∧
      List.range' 1 s₁.world.inner.pool.config.initial.toNat ++ arrivals l =
        departures l ++ s.world.idleIds ∧
      ∀ i id s', HandsOut s i id s' →
        (∃ work, s.process? i = some (.operation (.creating work))) ∨
          ∃ s₂ e, Run turn (Onward Admitted) s₁ s₂ ∧ e.id = id ∧ HandsOutIdle s₂ i e s s' ∧
            s'.world.inner.pool.AllRecent (reading s₂) := by
  have htidy := hunfilled.tidy hfilled hfresh
  refine ⟨(hrun.run.preserves Tidy.step htidy).ordered, ?_, fun i id s' hout => ?_⟩
  · rw [← hfresh.idle]
    exact htidy.fifo hrun
  · obtain hmade | ⟨s₂, e, hbefore, hid, hidle⟩ :=
      hout.handsOutIdle htidy hfresh.quiet hrun.run
    · exact .inl hmade
    · exact .inr ⟨s₂, e, hbefore, hid, hidle, hidle.allRecent (hbefore.preserves Tidy.step htidy)⟩

instance (p : Process) : Decidable p.IsAside :=
  match p with
  | .action .get | .action (.put ..) | .action (.close ..) | .action .release | .operation _ =>
      inferInstanceAs (Decidable False)
  | .action (.check _) | .action .counts | .action (.failCreateAfter _) | .action .allowCreate
  | .action (.failDestroy _) | .action (.markUnhealthy _) | .action (.latency ..)
  | .action (.advance _) | .action (.setClock _) | .action (.sleep _)
  | .checking _ | .asleep _ => inferInstanceAs (Decidable True)

instance (s s' : Use) (c : Choice Process) : Decidable (Attended s c s') :=
  match c with
  | .start p => inferInstanceAs (Decidable p.IsAside)
  | .turn _ | .pass _ => inferInstanceAs (Decidable True)

/-- Nobody but the process of a number has turns. -/
def Alone (i : Nat) : Rule World Process := fun _ c _ =>
  match c with
  | .turn j => j = i
  | .start _ => False
  | .pass _ => True

instance (i : Nat) (s s' : Use) (c : Choice Process) : Decidable (Alone i s c s') :=
  match c with
  | .turn j => inferInstanceAs (Decidable (j = i))
  | .start _ => inferInstanceAs (Decidable False)
  | .pass _ => inferInstanceAs (Decidable True)

/-- A pool that is to be filled, in which a resource may be idle for ten seconds.  To make
one takes a second, and to look at one two seconds. -/
def unhurried (initial : UInt64) : Use where
  now := .epoch
  world :=
    { inner :=
        { pool := { config := { initial, idleTimeout := .ofSeconds 10 } }
          supply :=
            { latency := fun kind => match kind with
                | .create => .ofSeconds 1
                | .check => .ofSeconds 2
                | .destroy => .zero }
          face := .simulated } }

/-- A time after the start, in tenths of a second. -/
def tenths (n : Fin 1000) : Instant where
  nanos := n * 100000000

theorem unfilled_unhurried {initial : UInt64}
    (h : (unhurried initial).world.inner.pool.config.fault? = none) :
    Unfilled (unhurried initial) where
  valid := h
  pool := rfl
  made := rfl
  destroyed := rfl
  held := rfl
  quiet := rfl

/-- What is left in the queue can become too old while the resource in front is looked at,
even when nobody else does anything. -/
theorem outlasted_while_checked :
    ∃ s₁ s₂ s s' e, Unfilled (unhurried 2) ∧
      Run turn (Onward Attended) (begun (unhurried 2)) s₁ ∧ Fresh s₁ ∧
      Run turn (Onward Admitted) s₁ s₂ ∧ s₂.process? 1 = some (.action .get) ∧
      Run turn (Onward (Alone 1)) s₂ s ∧ HandsOut s 1 1 s' ∧
      e ∈ s'.world.inner.pool.idle ∧ ¬ s'.world.inner.pool.Recent (reading s') e := by
  refine ⟨_, _, _, _, ⟨2, tenths 20⟩, unfilled_unhurried (by decide),
    .of_follow? [.pass (tenths 10), .turn 0, .pass (tenths 20), .turn 0] rfl,
    ⟨by decide, rfl, rfl, rfl, rfl, rfl, rfl, rfl, rfl⟩,
    .of_follow? [.pass (tenths 105), .start (.action .get)] rfl, rfl,
    .of_follow? [.turn 1, .turn 1, .pass (tenths 125)] rfl, ⟨_, _, _, rfl, rfl, rfl⟩, ?_, ?_⟩
  · exact List.mem_singleton.mpr rfl
  · intro hrecent
    exact absurd (hrecent (by decide)) (by decide)

/-- Of three resources the first was idle for too long, and is destroyed.  The second one
is looked at and handed out. -/
theorem first_in_first_out_unhurried :
    ∃ s₁ l s s', Unfilled (unhurried 3) ∧
      Run turn (Onward Attended) (begun (unhurried 3)) s₁ ∧ Fresh s₁ ∧
      Chronicle turn (Onward Admitted) passages s₁ l s ∧ HandsOut s 1 2 s' ∧
      departures l = [1, 2] ∧ s.world.idleIds = [3] ∧
      Ordered (reading s) s.world.inner.pool.idle ∧
      ∃ s₂ e, HandsOutIdle s₂ 1 e s s' ∧ s'.world.inner.pool.AllRecent (reading s₂) := by
  obtain ⟨s₁, hfilled, hfresh, l, s, hrun, s', hout, hcreating, hdepartures, hidle⟩ :
      ∃ s₁, Run turn (Onward Attended) (begun (unhurried 3)) s₁ ∧ Fresh s₁ ∧ ∃ l s,
        Chronicle turn (Onward Admitted) passages s₁ l s ∧ ∃ s', HandsOut s 1 2 s' ∧
        (∀ work, s.process? 1 ≠ some (.operation (.creating work))) ∧
        departures l = [1, 2] ∧ s.world.idleIds = [3] :=
    ⟨_, .of_follow? [.pass (tenths 10), .turn 0, .pass (tenths 20), .turn 0, .pass (tenths 30),
        .turn 0] rfl,
      ⟨by decide, rfl, rfl, rfl, rfl, rfl, rfl, rfl, rfl⟩, _, _,
      .of_follow? [.pass (tenths 115), .start (.action .get), .turn 1, .turn 1, .turn 1, .turn 1,
        .pass (tenths 135)] rfl,
      _, ⟨_, _, _, rfl, rfl, rfl⟩, by rintro work ⟨⟩, rfl, rfl⟩
  have hunfilled : Unfilled (unhurried 3) := unfilled_unhurried (by decide)
  obtain ⟨hordered, -, hrecent⟩ := first_in_first_out hunfilled hfilled hfresh hrun
  obtain ⟨work, hp⟩ | ⟨s₂, e, -, -, hout', hall⟩ := hrecent 1 2 s' hout
  · exact absurd hp (hcreating work)
  · exact ⟨s₁, l, s, s', hunfilled, hfilled, hfresh, hrun, hout, hdepartures, hidle, hordered, s₂,
      e, hout', hall⟩

end Scenario

end Leasehold.Pool
