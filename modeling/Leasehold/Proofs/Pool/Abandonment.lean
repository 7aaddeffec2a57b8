import Leasehold.Proofs.Pool.Conservation
import Leasehold.Proofs.Simulation.Abandonment

/-!
# Gets that are abandoned

Whoever waits for a resource may stop waiting.  If the get was in the middle of a job of
the supply then, it had taken a resource out of the queue or reserved a place, and
nothing gives that back: it counts as open for good (`Fresh.opened_abandoning`).  With nothing
under way, the pool counts as open what is idle and held, and one for each get that was
abandoned in such a place (`open_counts_abandoned`).

A bounded pool refuses a get as soon as these together reach its capacity, so a pool
that nobody uses can be exhausted (`open_counts_abandoned_twice`).
-/

namespace Leasehold.Pool

open Simulation

namespace Scenario

/-- Somebody wants a resource. -/
def Process.IsGet : Process → Prop
  | .action .get => True
  | .operation p =>
      match p with
      | .getting | .checking .. | .evicting .. | .creating _ => True
      | _ => False
  | _ => False

/-- A get that waits for the supply: for a resource to be looked at, to be destroyed or to
be made. -/
def Process.AtSupply : Process → Prop
  | .operation p =>
      match p with
      | .checking .. | .evicting .. | .creating _ => True
      | _ => False
  | _ => False

instance : DecidablePred Process.AtSupply := fun p => by
  unfold Process.AtSupply
  split
  · split <;> infer_instance
  · infer_instance

/-- A get answers for one resource or place while it waits for the supply, and for
nothing else. -/
theorem Process.IsGet.share {p : Process} (h : p.IsGet) :
    p.unaccounted + p.reserved = if p.AtSupply then 1 else 0 := by
  cases p with
  | operation p =>
    cases p with
    | rejecting | closing | releasing => cases h
    | _ => rfl
  | action | checking | asleep => rfl

variable {s₀ s s' : Use} {l : List Process} {i : Nat} {p : Process}

theorem Sound.drop (hs : Sound s) (i : Nat) : Sound (s.drop i) :=
  fun j q hq => hs j q (System.process?_of_drop hq)

/-- Who abandons a get at the supply leaves one behind that counts as open. -/
theorem opened_drop {n : Nat} (hp : s.process? i = some p) (hget : p.IsGet)
    (hopened : s.world.inner.pool.opened =
      s.world.kept + s.tally Process.unaccounted + s.tally Process.reserved + n) :
    (s.drop i).world.inner.pool.opened = (s.drop i).world.kept +
      (s.drop i).tally Process.unaccounted + (s.drop i).tally Process.reserved +
        (n + if p.AtSupply then 1 else 0) := by
  have hunaccounted := System.tally_drop Process.unaccounted hp
  have hreserved := System.tally_drop Process.reserved hp
  have hshare := hget.share
  rw [System.world_drop]
  omega

/-- Along a run in which gets are abandoned, the pool counts as open what is idle, held,
answered for and reserved, and one for each get that was abandoned at the supply. -/
theorem Fresh.opened_abandoning (hfresh : Fresh s₀)
    (h : Abandoning turn Admitted Process.IsGet s₀ l s) :
    Sound s ∧ s.world.inner.pool.opened = s.world.kept + s.tally Process.unaccounted +
      s.tally Process.reserved + l.countP (·.AtSupply) := by
  refine h.preserves (I := fun l t => Sound t ∧ t.world.inner.pool.opened = t.world.kept +
    t.tally Process.unaccounted + t.tally Process.reserved + l.countP (·.AtSupply)) ?_ ?_ ?_
  · intro l t c t' ⟨ht, hopened⟩ hstep hrule
    exact ⟨ht.step hstep hrule, (ht.doing hstep hrule).opened hopened⟩
  · intro l t i p ⟨ht, hopened⟩ hp hget
    refine ⟨ht.drop i, ?_⟩
    rw [opened_drop hp hget hopened, List.countP_cons]
    simp only [decide_eq_true_eq]
  · exact ⟨hfresh.sound, hfresh.balanced.opened⟩

/-! ## Gets that are refused -/

/-- The next turn of a process refuses a get for want of places. -/
def Exhausts (s : Use) (i : Nat) : Prop :=
  ∃ p w max records, s.process? i = some p ∧
    turn s.now s.world p = .ends w (.result (.failed (.exhausted max))) [] records

/-- A get that looks at the queue is refused exactly if the pool is bounded, has nothing
idle and may open no more. -/
theorem Sound.exhausts_iff (hs : Sound s) (hp : s.process? i = some (.operation .getting)) :
    Exhausts s i ↔ s.world.inner.pool.closed = false ∧ s.world.inner.pool.idle = [] ∧
      s.world.inner.pool.mayOpen = false := by
  constructor
  · rintro ⟨q, w, max, records, hq, hturn⟩
    cases hp.symm.trans hq
    have hdeed := hs.isDeed hp
    rw [hturn] at hdeed
    cases hdeed.2 with
    | aside haside => cases haside
    | exhausted hclosed hidle hmay => exact ⟨hclosed, hidle, hmay⟩
  · rintro ⟨hclosed, hidle, hmay⟩
    have hget : Pool.get s.world.inner s.now = openNew s.world.inner s.now := by
      rw [Pool.get, hclosed, if_neg Bool.false_ne_true, hidle]
    have hturn : turn s.now s.world (.operation .getting) =
        operationTurn s.world (openNew s.world.inner s.now) := by rw [turn, Pool.turn, hget]
    rw [openNew, hmay, if_neg Bool.false_ne_true] at hturn
    exact ⟨_, _, _, _, hp, hturn⟩

theorem mayOpen_eq_false_iff {p : Pool} :
    p.mayOpen = false ↔ p.config.checkout = .bounded ∧ p.capacity ≤ p.opened := by
  unfold mayOpen
  split
  next h => simp [h]
  next h => simp [h]

/-- With nothing under way, the pool counts as open what is idle and held, and one for
each get that was abandoned at the supply; so it counts what is idle and held exactly if
none was.  A get is refused for want of places exactly if the pool is bounded, open and
has nothing idle, and what its users hold, what is under way and what was abandoned fills
it up. -/
theorem open_counts_abandoned (hfresh : Fresh s₀)
    (h : Abandoning turn Admitted Process.IsGet s₀ l s) :
    (AtRest s →
      s.world.inner.pool.opened =
        s.world.inner.pool.idle.length + s.world.held.length + l.countP (·.AtSupply) ∧
      (s.world.inner.pool.opened = s.world.inner.pool.idle.length + s.world.held.length ↔
        ∀ p ∈ l, ¬p.AtSupply)) ∧
    ∀ i, s.process? i = some (.operation .getting) →
      (Exhausts s i ↔ s.world.inner.pool.config.checkout = .bounded ∧
        s.world.inner.pool.closed = false ∧ s.world.inner.pool.idle = [] ∧
        s.world.inner.pool.capacity ≤ s.world.held.length + s.tally Process.unaccounted +
          s.tally Process.reserved + l.countP (·.AtSupply)) := by
  obtain ⟨hs, hopened⟩ := hfresh.opened_abandoning h
  refine ⟨fun hrest => ?_, fun i hi => ?_⟩
  · have hcount : s.world.inner.pool.opened =
        s.world.inner.pool.idle.length + s.world.held.length + l.countP (·.AtSupply) := by
      rw [hopened, hrest.tally_unaccounted, hrest.tally_reserved]
      rfl
    refine ⟨hcount, ?_⟩
    rw [hcount, Nat.add_eq_left, List.countP_eq_zero]
    simp only [decide_eq_true_eq]
  · rw [hs.exhausts_iff hi, mayOpen_eq_false_iff, hopened, World.kept]
    constructor
    · rintro ⟨hclosed, hidle, hbounded, hfull⟩
      rw [hidle, List.length_nil, Nat.zero_add] at hfull
      exact ⟨hbounded, hclosed, hidle, hfull⟩
    · rintro ⟨hbounded, hclosed, hidle, hfull⟩
      rw [hidle, List.length_nil, Nat.zero_add]
      exact ⟨hclosed, rfl, hbounded, hfull⟩

/-- A bounded pool of two places with one resource. -/
def bounded : Use where
  now := .epoch
  world :=
    { inner :=
        { pool :=
            { config := { max := 2, checkout := .bounded }
              idle := [⟨1, .epoch⟩], opened := 1, stats := { created := 1 } }
          supply := { made := 1, jobs := [.create] } } }

theorem fresh_bounded : Fresh bounded where
  valid := by decide
  idle := rfl
  opened := rfl
  unclosed := rfl
  stats := rfl
  made := rfl
  destroyed := rfl
  held := rfl
  quiet := rfl

/-- One get is abandoned while a resource is looked at, and another one while a resource
is made.  Nothing is idle then, nobody holds anything and nothing is under way, and the
next get is refused for want of places. -/
theorem open_counts_abandoned_twice :
    ∃ l s s', Abandoning turn Admitted Process.IsGet bounded l s ∧ AtRest s ∧
      s.world.inner.pool.idle = [] ∧ s.world.held = [] ∧ s.world.inner.pool.opened = 2 ∧
      Run turn Admitted s s' ∧ Exhausts s' 2 := by
  obtain ⟨s₁, p₁, s₂, p₂, s', hrun₁, hp₁, hget₁, hrun₂, hp₂, hget₂, hrest, hidle, hheld, hcount,
      hrun, hp, hfull⟩ :
      ∃ s₁ p₁ s₂ p₂ s', Run turn Admitted bounded s₁ ∧ s₁.process? 0 = some p₁ ∧ p₁.IsGet ∧
        Run turn Admitted (s₁.drop 0) s₂ ∧ s₂.process? 1 = some p₂ ∧ p₂.IsGet ∧
        (s₂.drop 1).running = [] ∧ s₂.world.inner.pool.idle = [] ∧ s₂.world.held = [] ∧
        [p₂, p₁].countP (·.AtSupply) = 2 ∧
        Run turn Admitted (s₂.drop 1) s' ∧ s'.process? 2 = some (.operation .getting) ∧
        (s'.world.inner.pool.config.checkout = .bounded ∧ s'.world.inner.pool.closed = false ∧
          s'.world.inner.pool.idle = [] ∧ s'.world.inner.pool.capacity ≤ 2) :=
    ⟨_, _, _, _, _, .of_follow? [.start (.action .get), .turn 0, .turn 0] rfl, rfl, trivial,
      .of_follow? [.start (.action .get), .turn 1, .turn 1] rfl, rfl, trivial, rfl, rfl, rfl, rfl,
      .of_follow? [.start (.action .get), .turn 2] rfl, rfl, rfl, rfl, rfl, by decide⟩
  have hfirst := (Abandoning.nil_iff.mpr hrun₁).drop hp₁ hget₁
  have habandoning := (hfirst.append_run hrun₂).drop hp₂ hget₂
  have hquiet : AtRest (s₂.drop 1) := by
    intro i q hq
    have hmem := System.mem_running hq
    rw [hrest] at hmem
    cases hmem
  have hopened := ((open_counts_abandoned fresh_bounded habandoning).1 hquiet).1
  have hrefused := (open_counts_abandoned fresh_bounded (habandoning.append_run hrun)).2 2 hp
  refine ⟨_, _, s', habandoning, hquiet, hidle, hheld, ?_, hrun, hrefused.mpr ?_⟩
  · rw [hopened, System.world_drop, hidle, hheld, hcount]
    rfl
  · obtain ⟨hbounded, hclosed, hempty, hcapacity⟩ := hfull
    refine ⟨hbounded, hclosed, hempty, ?_⟩
    rw [hcount]
    exact Nat.le_trans hcapacity (Nat.le_add_left _ _)

end Scenario

end Leasehold.Pool
