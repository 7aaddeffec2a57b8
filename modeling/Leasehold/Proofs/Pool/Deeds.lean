import Leasehold.Pool.Scenario

/-!
# What is done with a pool on a turn

`Deed` lists everything that the users of a pool and its operations can do on a
turn: what becomes of the world and of the process, and what comes of a process
that ends.  `turn_isDeed` says that the list is complete, for processes that are
`Fit`: nobody gives back a resource that was not handed out, and the pool is
filled already.

All later invariants of runs are proved over the deeds; nothing else opens
`turn`.
-/

namespace Leasehold

/-! ## What a supply does with a job -/

namespace Supply

/-- The resources that were passed on to be destroyed, in order. -/
def destroyed (s : Supply) : List Nat :=
  s.jobs.filterMap fun j => match j with | .destroy id => some id | _ => none

variable (s : Supply) (now : Instant)

@[simp] theorem destroyed_give_destroy (id : Nat) :
    (s.give now (.destroy id)).2.destroyed = s.destroyed ++ [id] := by
  simp only [give, settle, destroy]
  split <;> simp [destroyed]

@[simp] theorem made_give_destroy (id : Nat) : (s.give now (.destroy id)).2.made = s.made := by
  simp only [give, settle, destroy]
  split <;> rfl

@[simp] theorem destroyed_give_check (id : Nat) :
    (s.give now (.check id)).2.destroyed = s.destroyed := by
  simp only [give, settle, check]
  split
  · rfl
  · split <;> simp [destroyed]

@[simp] theorem made_give_check (id : Nat) : (s.give now (.check id)).2.made = s.made := by
  simp only [give, settle, check]
  split
  · rfl
  · split <;> rfl

@[simp] theorem destroyed_give_create :
    (s.give now .create).2.destroyed = s.destroyed := by
  simp only [give, settle, create]
  split <;> simp [destroyed]

/-- A resource that is made has the next number. -/
theorem give_create :
    ((s.give now .create).1.outcome = .ok (s.made + 1) ∧
      (s.give now .create).2.made = s.made + 1) ∨
    ((∃ e, (s.give now .create).1.outcome = .error e) ∧ (s.give now .create).2.made = s.made) := by
  simp only [give, settle, create]
  split
  · exact .inr ⟨⟨_, rfl⟩, rfl⟩
  · exact .inl ⟨rfl, rfl⟩
  · exact .inl ⟨rfl, rfl⟩

end Supply

namespace Pool.Scenario

open Simulation

/-! ## What is done to the world -/

namespace World

variable (w : World)

/-- The world with another state of the pool. -/
def withPool (p : Pool) : World := w.withInner (w.inner.withPool p)

/-- The world with a resource in the hands of a user. -/
def handOut (id : Nat) : World := { w with held := id :: w.held }

/-- The world with a resource taken out of the hands of its user. -/
def handIn (id : Nat) : World := { w with held := w.held.erase id }

/-- The world when the supply was given a job. -/
def assign (now : Instant) (job : Job) : World := w.withSupply (w.inner.supply.give now job).2

/-- A job that the supply is given. -/
def task (now : Instant) (job : Job) : Work := (w.inner.supply.give now job).1

/-- The reading of the clock of the pool. -/
def reading (now : Instant) : Instant := w.inner.face.read now

@[simp] theorem pool_withPool (p : Pool) : (w.withPool p).inner.pool = p := rfl

@[simp] theorem held_withPool (p : Pool) : (w.withPool p).held = w.held := rfl

@[simp] theorem inner_handOut (id : Nat) : (w.handOut id).inner = w.inner := rfl

@[simp] theorem held_handOut (id : Nat) : (w.handOut id).held = id :: w.held := rfl

@[simp] theorem inner_handIn (id : Nat) : (w.handIn id).inner = w.inner := rfl

@[simp] theorem held_handIn (id : Nat) : (w.handIn id).held = w.held.erase id := rfl

@[simp] theorem pool_assign (now : Instant) (job : Job) :
    (w.assign now job).inner.pool = w.inner.pool := rfl

@[simp] theorem supply_assign (now : Instant) (job : Job) :
    (w.assign now job).inner.supply = (w.inner.supply.give now job).2 := rfl

@[simp] theorem held_assign (now : Instant) (job : Job) : (w.assign now job).held = w.held := rfl

/-- The pool and the hands of its users are the same, and the supply has made and
destroyed nothing. -/
structure Alike (w w' : World) : Prop where
  pool : w'.inner.pool = w.inner.pool
  held : w'.held = w.held
  destroyed : w'.inner.supply.destroyed = w.inner.supply.destroyed
  made : w'.inner.supply.made = w.inner.supply.made

variable {w}

theorem Alike.refl (w : World) : Alike w w := ⟨rfl, rfl, rfl, rfl⟩

theorem receive_rejection (w : World) (reason : Disposal) : w.receive (rejection reason) = w := by
  cases reason <;> rfl

theorem receive_closeResult (w : World) (outcome : Job.Outcome) :
    w.receive (closeResult outcome) = w := by
  cases outcome <;> rfl

theorem handOver?_unforged (w : World) (id : Nat) :
    w.handOver? id false = if id ∈ w.held then some (w.handIn id) else none := by
  simp [handOver?, handIn]

end World

/-! ## Fit processes -/

/-- An action that gives back only what was handed out. -/
def Action.Honest : Action → Prop
  | .put _ forged => forged = false
  | .close _ forged => forged = false
  | _ => True

/-- An action on a filled pool, and not a filling of it. -/
def Process.Fit : Process → Prop
  | .action a => a.Honest
  | .operation (.filling ..) | .operation (.emptying ..) => False
  | _ => True

/-- A process that does nothing with the pool. -/
def Process.IsAside : Process → Prop
  | .action a =>
      match a with
      | .get | .put .. | .close .. | .release => False
      | _ => True
  | .operation _ => False
  | .checking _ | .asleep _ => True

/-! ## Deeds -/

/-- What is done with the resources that were idle when the pool was released: the
next one is destroyed, or the release is over. -/
inductive Drains (now : Instant) (w : World) (count : Nat) :
    List Idle → World → Option Process → Option Outcome → Prop where
  | empty : Drains now w count [] w none (some (.result .ok))
  | next {e rest} :
      Drains now w count (e :: rest) (w.assign now (.destroy e.id))
        (some (.operation (.releasing rest count (w.task now (.destroy e.id))))) none

/-- What is done on a turn: the world before it, the process, the world after it,
how the process goes on, and what comes of it if it ends. -/
inductive Deed (now : Instant) (w : World) :
    Process → World → Option Process → Option Outcome → Prop where
  /-- Something that is of no concern to the pool. -/
  | aside {p w' next? out?} :
      p.IsAside → w.Alike w' → (∀ q, next? = some q → q.IsAside) →
      (∀ id, out? ≠ some (.result (.resource id))) → Deed now w p w' next? out?
  /-- A resource is wanted. -/
  | wanted : Deed now w (.action .get) w (some (.operation .getting)) none
  /-- The pool is closed, and nothing can be had from it. -/
  | refused :
      w.inner.pool.closed = true →
      Deed now w (.operation .getting) w none (some (.result (.failed .closed)))
  /-- No resource is idle, and no other may be opened. -/
  | exhausted :
      w.inner.pool.closed = false → w.inner.pool.idle = [] → w.inner.pool.mayOpen = false →
      Deed now w (.operation .getting) w none
        (some (.result (.failed (.exhausted w.inner.pool.capacity))))
  /-- No resource is idle, and a place is reserved for another one. -/
  | reserved :
      w.inner.pool.closed = false → w.inner.pool.idle = [] → w.inner.pool.mayOpen = true →
      Deed now w (.operation .getting)
        ((w.withPool { w.inner.pool with opened := w.inner.pool.opened + 1 }).assign now .create)
        (some (.operation (.creating (w.task now .create)))) none
  /-- The first idle resource is handed out. -/
  | taken {e rest} :
      w.inner.pool.closed = false → w.inner.pool.idle = e :: rest →
      w.inner.pool.isStale (w.reading now) e = false → w.inner.supply.checksLiveness = false →
      Deed now w (.operation .getting)
        ((w.withPool { w.inner.pool with idle := rest }).handOut e.id) none
        (some (.result (.resource e.id)))
  /-- The first idle resource was idle for too long. -/
  | outdated {e rest} :
      w.inner.pool.closed = false → w.inner.pool.idle = e :: rest →
      w.inner.pool.isStale (w.reading now) e = true →
      Deed now w (.operation .getting)
        ((w.withPool { w.inner.pool with idle := rest }).assign now (.destroy e.id))
        (some (.operation (.evicting .idleTimeout (w.task now (.destroy e.id))))) none
  /-- The first idle resource is looked at. -/
  | inspected {e rest} :
      w.inner.pool.closed = false → w.inner.pool.idle = e :: rest →
      w.inner.pool.isStale (w.reading now) e = false → w.inner.supply.checksLiveness = true →
      Deed now w (.operation .getting)
        ((w.withPool { w.inner.pool with idle := rest }).assign now (.check e.id))
        (some (.operation (.checking e (w.task now (.check e.id))))) none
  /-- A resource is sound and handed out. -/
  | sound {e work id} :
      work.outcome = .ok id →
      Deed now w (.operation (.checking e work)) (w.handOut e.id) none
        (some (.result (.resource e.id)))
  /-- A resource is not sound. -/
  | unsound {e work cause} :
      work.outcome = .error cause →
      Deed now w (.operation (.checking e work)) (w.assign now (.destroy e.id))
        (some (.operation (.evicting .unhealthy (w.task now (.destroy e.id))))) none
  /-- An idle resource was destroyed. -/
  | evicted {reason work} :
      Deed now w (.operation (.evicting reason work))
        (w.withPool (w.inner.pool.forget (some reason))) (some (.operation .getting)) none
  /-- A new resource was made and is handed out. -/
  | made {work id} :
      work.outcome = .ok id →
      Deed now w (.operation (.creating work))
        ((w.withPool { w.inner.pool with
          stats := { w.inner.pool.stats with created := w.inner.pool.stats.created + 1 } }).handOut
            id) none (some (.result (.resource id)))
  /-- A new resource could not be made, and its place is given up. -/
  | unmade {work e} :
      work.outcome = .error e →
      Deed now w (.operation (.creating work))
        (w.withPool { w.inner.pool with opened := w.inner.pool.opened - 1 }) none
        (some (.result (.failed (.resource e))))
  /-- Somebody wants to give back what is not in anybody's hands. -/
  | unheld {a id} :
      a = .put id false ∨ a = .close id false → id ∉ w.held →
      Deed now w (.action a) w none (some .notHeld)
  /-- A resource came back and is idle now. -/
  | stored {id} :
      id ∈ w.held → w.inner.pool.closed = false →
      w.inner.pool.idle.length < w.inner.pool.capacity →
      Deed now w (.action (.put id false))
        ((w.handIn id).withPool (w.inner.pool.enqueue id (w.reading now))) none
        (some (.result .ok))
  /-- A resource came back that cannot be kept. -/
  | rejected {id reason} :
      id ∈ w.held →
      (w.inner.pool.closed = true ∧ reason = .closed) ∨
        (w.inner.pool.closed = false ∧ w.inner.pool.capacity ≤ w.inner.pool.idle.length ∧
          reason = .overflow) →
      Deed now w (.action (.put id false)) ((w.handIn id).assign now (.destroy id))
        (some (.operation (.rejecting reason (w.task now (.destroy id))))) none
  /-- A resource that could not be kept was destroyed. -/
  | disposed {reason work} :
      Deed now w (.operation (.rejecting reason work))
        (w.withPool (w.inner.pool.forget (some reason))) none (some (.result (rejection reason)))
  /-- A resource came back to be destroyed. -/
  | surrendered {id} :
      id ∈ w.held →
      Deed now w (.action (.close id false)) ((w.handIn id).assign now (.destroy id))
        (some (.operation (.closing (w.task now (.destroy id))))) none
  /-- A resource that came back for it was destroyed. -/
  | closed {work} :
      Deed now w (.operation (.closing work)) (w.withPool (w.inner.pool.forget none)) none
        (some (.result (closeResult work.outcome)))
  /-- The pool is closed already. -/
  | shut :
      w.inner.pool.closed = true → Deed now w (.action .release) w none (some (.result .ok))
  /-- The pool is closed. -/
  | released {w' next? out?} :
      w.inner.pool.closed = false →
      Drains now (w.withPool { w.inner.pool with closed := true, idle := [] })
        w.inner.pool.idle.length w.inner.pool.idle w' next? out? →
      Deed now w (.action .release) w' next? out?
  /-- A resource of a closed pool was destroyed. -/
  | drained {rest count work w' next? out?} :
      Drains now (w.withPool (w.inner.pool.forget (some .closed))) count rest w' next? out? →
      Deed now w (.operation (.releasing rest count work)) w' next? out?

/-! ## Every turn is a deed -/

/-- The step of a turn, if there is one, leaves what a relation says and starts
nothing. -/
def Leaves (R : World → Option Process → Option Outcome → Prop) :
    Turn World Process Outcome → Prop
  | .waits _ => True
  | .moves w' q _ => R w' (some q) none
  | .ends w' out started _ => started = [] ∧ R w' none (some out)

theorem leaves_after {R : World → Option Process → Option Outcome → Prop}
    {t : Turn World Process Outcome} {records : List Log.Record} :
    Leaves R (t.after records) ↔ Leaves R t := by
  cases t <;> rfl

theorem Leaves.mono {R R' : World → Option Process → Option Outcome → Prop}
    {t : Turn World Process Outcome} (himp : ∀ w' next? out?, R w' next? out? → R' w' next? out?)
    (h : Leaves R t) : Leaves R' t := by
  cases t with
  | waits => trivial
  | moves w' q => exact himp _ _ _ h
  | ends w' out => exact ⟨h.1, himp _ _ _ h.2⟩

/-- The step of a turn, if there is one, is a deed. -/
abbrev IsDeed (now : Instant) (w : World) (p : Process) : Turn World Process Outcome → Prop :=
  Leaves (Deed now w p)

variable {now : Instant} {w : World}

theorem operationTurn_after (w : World) (records : List Log.Record)
    (t : Turn Pool.World Pool.Process Result) :
    operationTurn w (t.after records) = (operationTurn w t).after records := by
  cases t <;> simp [operationTurn, Turn.within, Turn.after]

/-- A process with a job under way waits for it, or goes on with the outcome. -/
theorem leaves_job {R : World → Option Process → Option Outcome → Prop} {work : Work}
    {next : Work → Pool.Process}
    {done : Pool.World → Job.Outcome → Turn Pool.World Pool.Process Result}
    (h : Leaves R (operationTurn w (done w.inner work.outcome))) :
    Leaves R (operationTurn w
      ((Supply.turn now w.inner.supply work).within w.inner.withSupply next done)) := by
  unfold Supply.turn
  split
  · change Leaves R (operationTurn w ((done w.inner work.outcome).after _))
    rw [operationTurn_after, leaves_after]
    exact h
  · trivial

theorem isDeed_get :
    IsDeed now w (.operation .getting) (operationTurn w (Pool.get w.inner now)) := by
  unfold Pool.get
  cases hclosed : w.inner.pool.closed with
  | true => exact ⟨rfl, .refused hclosed⟩
  | false =>
    simp only [Bool.false_eq_true, if_false]
    split
    next hidle =>
      unfold openNew
      split
      next hmay => exact .reserved hclosed hidle hmay
      next hmay => exact ⟨rfl, .exhausted hclosed hidle (Bool.eq_false_iff.mpr hmay)⟩
    next e rest hidle =>
      split
      next hstale => exact .outdated hclosed hidle hstale
      next hstale =>
        have hfresh := Bool.eq_false_iff.mpr hstale
        split
        next hlooks => exact .inspected hclosed hidle hfresh hlooks
        next hlooks => exact ⟨rfl, .taken hclosed hidle hfresh (Bool.eq_false_iff.mpr hlooks)⟩

/-- What is done with the rest of a pool that was released. -/
theorem drains_drain {p : Process} {w₀ : World} {count : Nat} {rest : List Idle}
    (h : ∀ w' next? out?, Drains now w count rest w' next? out? → Deed now w₀ p w' next? out?) :
    IsDeed now w₀ p (operationTurn w (Pool.drain w.inner now count rest)) := by
  cases rest with
  | nil => exact ⟨rfl, h _ _ _ .empty⟩
  | cons e rest => exact h _ _ _ .next

theorem isDeed_put {id : Nat} (hheld : id ∈ w.held) :
    IsDeed now w (.action (.put id false))
      (operationTurn (w.handIn id) (Pool.put w.inner now id)) := by
  unfold Pool.put
  cases hclosed : w.inner.pool.closed with
  | true => exact .rejected hheld (.inl ⟨hclosed, rfl⟩)
  | false =>
    simp only [Bool.false_eq_true, if_false]
    split
    next hfull => exact .rejected hheld (.inr ⟨hclosed, hfull, rfl⟩)
    next hroom => exact ⟨rfl, .stored hheld hclosed (Nat.lt_of_not_le hroom)⟩

theorem isDeed_release : IsDeed now w (.action .release)
    (operationTurn w (Pool.release w.inner now)) := by
  unfold Pool.release
  cases hclosed : w.inner.pool.closed with
  | true => exact ⟨rfl, .shut hclosed⟩
  | false =>
    exact drains_drain (w := w.withPool { w.inner.pool with closed := true, idle := [] })
      fun w' next? out? => .released hclosed

theorem isDeed_begin {a : Action} (ha : a.Honest) :
    IsDeed now w (.action a) (begin now w a) := by
  cases a with
  | get => exact .wanted
  | put id forged =>
    cases ha
    rw [begin, World.handOver?_unforged]
    by_cases hheld : id ∈ w.held
    · rw [if_pos hheld]
      exact isDeed_put hheld
    · rw [if_neg hheld]
      exact ⟨rfl, .unheld (.inl rfl) hheld⟩
  | close id forged =>
    cases ha
    rw [begin, World.handOver?_unforged]
    by_cases hheld : id ∈ w.held
    · rw [if_pos hheld]
      exact Deed.surrendered hheld
    · rw [if_neg hheld]
      exact ⟨rfl, .unheld (.inr rfl) hheld⟩
  | release => exact isDeed_release
  | check id =>
    refine .aside trivial ⟨rfl, rfl, ?_, ?_⟩ (by rintro _ ⟨⟩; trivial) (by simp)
    · exact Supply.destroyed_give_check _ now id
    · exact Supply.made_give_check _ now id
  | sleep d => exact .aside trivial (.refl w) (by rintro _ ⟨⟩; trivial) (by simp)
  | counts => exact ⟨rfl, .aside trivial (.refl w) (by simp) (by rintro _ ⟨⟩)⟩
  | failCreateAfter | allowCreate | failDestroy | markUnhealthy | latency =>
    exact ⟨rfl, .aside trivial ⟨rfl, rfl, rfl, rfl⟩ (by simp) (by simp)⟩
  | advance d =>
    simp only [begin, World.act, World.setHand]
    split <;> exact ⟨rfl, .aside trivial ⟨rfl, rfl, rfl, rfl⟩ (by simp) (by simp)⟩
  | setClock d =>
    simp only [begin, World.act, World.setHand]
    split <;> exact ⟨rfl, .aside trivial ⟨rfl, rfl, rfl, rfl⟩ (by simp) (by simp)⟩

/-- What a fit process does on its turn is a deed. -/
theorem turn_isDeed {p : Process} (hfit : p.Fit) : IsDeed now w p (turn now w p) := by
  cases p with
  | action a => exact isDeed_begin hfit
  | checking work =>
    simp only [turn, Supply.turn]
    split
    · exact ⟨rfl, .aside trivial ⟨rfl, rfl, rfl, rfl⟩ (by simp) (by simp)⟩
    · trivial
  | asleep due? =>
    simp only [turn]
    split
    · exact ⟨rfl, .aside trivial (.refl w) (by simp) (by simp)⟩
    · trivial
  | operation p =>
    rw [turn]
    cases p with
    | filling | emptying => cases hfit
    | getting => exact isDeed_get
    | checking e work =>
      rw [Pool.turn]
      refine leaves_job ?_
      cases hout : work.outcome with
      | ok id => exact ⟨rfl, .sound hout⟩
      | error cause => exact .unsound hout
    | evicting reason work =>
      rw [Pool.turn]
      refine leaves_job ?_
      exact Deed.evicted
    | creating work =>
      rw [Pool.turn]
      refine leaves_job ?_
      cases hout : work.outcome with
      | ok id => exact ⟨rfl, .made hout⟩
      | error e => exact ⟨rfl, .unmade hout⟩
    | rejecting reason work =>
      rw [Pool.turn]
      refine leaves_job ?_
      refine ⟨rfl, ?_⟩
      rw [World.receive_rejection]
      exact .disposed
    | closing work =>
      rw [Pool.turn]
      refine leaves_job ?_
      refine ⟨rfl, ?_⟩
      rw [World.receive_closeResult]
      exact .closed
    | releasing rest count work =>
      rw [Pool.turn]
      refine leaves_job ?_
      rw [operationTurn_after, leaves_after]
      exact drains_drain (w := w.withPool (w.inner.pool.forget (some .closed)))
        fun w' next? out? => .drained

end Pool.Scenario

end Leasehold
