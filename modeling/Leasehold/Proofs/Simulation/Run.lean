import Leasehold.Simulation.Turn

/-!
# Runs under any schedule

A *system* is a world, the processes that share it and the time.  Its processes
are numbered, and a process keeps its number: one that is over leaves its place
empty.

What happens next is a *choice*: some process has its turn, a new process
starts, or time passes.  `Step` says what a choice does.  A *rule* says which
steps are allowed, and a `Run` is any sequence of steps that its rule allows.
A rule that allows everything leaves the order of turns wholly open, so a
theorem about every run holds for every schedule.

`step?` and `follow?` compute steps and runs, for runs that are written down
(`Run.of_follow?`, `Run.of_isSome`).
-/

namespace Leasehold.Simulation

/-- A world, the processes in it and the time. -/
structure System (σ π : Type) where
  /-- The time. -/
  now : Instant
  /-- What the processes share. -/
  world : σ
  /-- The processes under their numbers; the place of one that is over is empty. -/
  processes : List (Option π) := []

/-- What happens next. -/
inductive Choice (π : Type) where
  /-- The process of a number has its turn. -/
  | turn (i : Nat)
  /-- A new process starts. -/
  | start (p : π)
  /-- Time passes until an instant. -/
  | pass (t : Instant)

/-- Whether a choice is the turn of the process of a number. -/
def Choice.IsTurn (i : Nat) : Choice π → Prop
  | .turn j => j = i
  | .start _ => False
  | .pass _ => False

/-- Which steps are allowed: from a system, by a choice, to a system. -/
abbrev Rule (σ π : Type) := System σ π → Choice π → System σ π → Prop

variable {σ π ρ : Type} {turn : Behaviour σ π ρ}

instance (i : Nat) (c : Choice π) : Decidable (c.IsTurn i) := by
  unfold Choice.IsTurn
  split <;> infer_instance

namespace System

/-- The process of a number, if there is one and it is not over. -/
def process? (s : System σ π) (i : Nat) : Option π := s.processes[i]?.join

/-- The system after a process has changed the world, gone on as `next?` or
ended, and started others. -/
def advance (s : System σ π) (i : Nat) (world : σ) (next? : Option π) (started : List π) :
    System σ π :=
  { s with world, processes := s.processes.set i next? ++ started.map some }

/-- The system with one more process. -/
def add (s : System σ π) (p : π) : System σ π := { s with processes := s.processes ++ [some p] }

/-- The system when time has passed until an instant. -/
def passTo (s : System σ π) (t : Instant) : System σ π := { s with now := t }

/-- The processes that are not over. -/
def running (s : System σ π) : List π := s.processes.filterMap id

theorem mem_running {s : System σ π} {i : Nat} {p : π} (h : s.process? i = some p) :
    p ∈ s.running := by
  simp only [process?, Option.join_eq_some_iff] at h
  exact List.mem_filterMap.mpr ⟨some p, List.mem_of_getElem? h, rfl⟩

theorem lt_length_of_process? {s : System σ π} {i : Nat} {p : π} (h : s.process? i = some p) :
    i < s.processes.length := by
  refine Nat.lt_of_not_le fun hle => ?_
  rw [process?, List.getElem?_eq_none hle] at h
  cases h

@[simp] theorem now_advance (s : System σ π) (i : Nat) (w : σ) (q? : Option π) (l : List π) :
    (s.advance i w q? l).now = s.now := rfl

@[simp] theorem world_advance (s : System σ π) (i : Nat) (w : σ) (q? : Option π) (l : List π) :
    (s.advance i w q? l).world = w := rfl

@[simp] theorem length_advance (s : System σ π) (i : Nat) (w : σ) (q? : Option π) (l : List π) :
    (s.advance i w q? l).processes.length = s.processes.length + l.length := by
  simp [advance]

theorem process?_advance_self {s : System σ π} {i : Nat} (h : i < s.processes.length) (w : σ)
    (q? : Option π) (l : List π) : (s.advance i w q? l).process? i = q? := by
  simp [process?, advance, List.getElem?_append, h]

theorem process?_advance_of_ne {s : System σ π} {i j : Nat} (hj : j < s.processes.length)
    (hne : j ≠ i) (w : σ) (q? : Option π) (l : List π) :
    (s.advance i w q? l).process? j = s.process? j := by
  simp [process?, advance, List.getElem?_append, hj, hne.symm]

theorem process?_advance_started (s : System σ π) (i k : Nat) (w : σ) (q? : Option π)
    (l : List π) : (s.advance i w q? l).process? (s.processes.length + k) = l[k]? := by
  have hk : ¬ s.processes.length + k < s.processes.length := by omega
  cases hl : l[k]? <;> simp [process?, advance, List.getElem?_append, hk, hl]

/-- A process after a turn is an old one that had no turn, the next form of the
one that had it, or one that was started. -/
theorem process?_advance_cases {s : System σ π} {i j : Nat} {w : σ} {q? : Option π} {l : List π}
    {p : π} (h : (s.advance i w q? l).process? j = some p) :
    (j ≠ i ∧ s.process? j = some p) ∨ (j = i ∧ q? = some p) ∨
      ∃ k, j = s.processes.length + k ∧ l[k]? = some p := by
  by_cases hj : j < s.processes.length
  · by_cases hne : j = i
    · subst hne
      rw [process?_advance_self hj] at h
      exact .inr (.inl ⟨rfl, h⟩)
    · rw [process?_advance_of_ne hj hne] at h
      exact .inl ⟨hne, h⟩
  · have hle : s.processes.length ≤ j := by omega
    obtain ⟨k, rfl⟩ := Nat.exists_eq_add_of_le hle
    rw [process?_advance_started] at h
    exact .inr (.inr ⟨k, rfl, h⟩)

@[simp] theorem now_add (s : System σ π) (p : π) : (s.add p).now = s.now := rfl

@[simp] theorem world_add (s : System σ π) (p : π) : (s.add p).world = s.world := rfl

theorem process?_add_of_lt {s : System σ π} {j : Nat} (h : j < s.processes.length) (p : π) :
    (s.add p).process? j = s.process? j := by
  simp [process?, add, List.getElem?_append, h]

theorem process?_add_self (s : System σ π) (p : π) :
    (s.add p).process? s.processes.length = some p := by
  simp [process?, add]

/-- A process after one was started is an old one or that one. -/
theorem process?_add_cases {s : System σ π} {p q : π} {j : Nat}
    (h : (s.add p).process? j = some q) :
    s.process? j = some q ∨ (j = s.processes.length ∧ q = p) := by
  by_cases hj : j < s.processes.length
  · exact .inl (by rwa [process?_add_of_lt hj] at h)
  · have hlt := lt_length_of_process? h
    have he : j = s.processes.length := by
      simp only [add, List.length_append, List.length_cons, List.length_nil] at hlt
      omega
    subst he
    rw [process?_add_self] at h
    exact .inr ⟨rfl, (Option.some.inj h).symm⟩

@[simp] theorem now_passTo (s : System σ π) (t : Instant) : (s.passTo t).now = t := rfl

@[simp] theorem world_passTo (s : System σ π) (t : Instant) : (s.passTo t).world = s.world := rfl

@[simp] theorem process?_passTo (s : System σ π) (t : Instant) (i : Nat) :
    (s.passTo t).process? i = s.process? i := rfl

end System

/-! ## Steps -/

/-- What a choice does.  A process that waits does nothing when it has a turn,
so such a turn is no step. -/
inductive Step (turn : Behaviour σ π ρ) : System σ π → Choice π → System σ π → Prop where
  | moves {s i p world next records} :
      s.process? i = some p →
      turn s.now s.world p = .moves world next records →
      Step turn s (.turn i) (s.advance i world (some next) [])
  | ends {s i p world result started records} :
      s.process? i = some p →
      turn s.now s.world p = .ends world result started records →
      Step turn s (.turn i) (s.advance i world none started)
  | start (s p) : Step turn s (.start p) (s.add p)
  | pass {s t} : s.now ≤ t → Step turn s (.pass t) (s.passTo t)

/-- Time never goes back. -/
theorem Step.now_le {s s' : System σ π} {c : Choice π} (h : Step turn s c s') :
    s.now.nanos ≤ s'.now.nanos := by
  cases h with
  | moves => exact Nat.le_refl _
  | ends => exact Nat.le_refl _
  | start => exact Nat.le_refl _
  | pass hle => exact hle

/-- No process loses its number. -/
theorem Step.length_le {s s' : System σ π} {c : Choice π} (h : Step turn s c s') :
    s.processes.length ≤ s'.processes.length := by
  cases h with
  | moves => simp
  | ends => simp
  | start => simp [System.add]
  | pass => exact Nat.le_refl _

/-- A process that has a turn is not over. -/
theorem Step.exists_process? {s s' : System σ π} {i : Nat} (h : Step turn s (.turn i) s') :
    ∃ p, s.process? i = some p := by
  cases h with
  | moves hp => exact ⟨_, hp⟩
  | ends hp => exact ⟨_, hp⟩

/-- A turn of a process is the step that the process takes. -/
theorem Step.eq_of_moves {s s' : System σ π} {i : Nat} {p q : π} {w : σ}
    {records : List Log.Record} (h : Step turn s (.turn i) s') (hp : s.process? i = some p)
    (hturn : turn s.now s.world p = .moves w q records) : s' = s.advance i w (some q) [] := by
  cases h with
  | moves hp' hmoves =>
    cases hp.symm.trans hp'
    cases hturn.symm.trans hmoves
    rfl
  | ends hp' hends =>
    cases hp.symm.trans hp'
    cases hturn.symm.trans hends

theorem Step.eq_of_ends {s s' : System σ π} {i : Nat} {p : π} {w : σ} {r : ρ} {started : List π}
    {records : List Log.Record} (h : Step turn s (.turn i) s') (hp : s.process? i = some p)
    (hturn : turn s.now s.world p = .ends w r started records) :
    s' = s.advance i w none started := by
  cases h with
  | moves hp' hmoves =>
    cases hp.symm.trans hp'
    cases hturn.symm.trans hmoves
  | ends hp' hends =>
    cases hp.symm.trans hp'
    cases hturn.symm.trans hends
    rfl

theorem Step.not_waits {s s' : System σ π} {i : Nat} {p : π} {due? : Option Instant}
    (h : Step turn s (.turn i) s') (hp : s.process? i = some p) :
    turn s.now s.world p ≠ .waits due? := by
  intro hturn
  cases h with
  | moves hp' hmoves =>
    cases hp.symm.trans hp'
    cases hturn.symm.trans hmoves
  | ends hp' hends =>
    cases hp.symm.trans hp'
    cases hturn.symm.trans hends

/-! ## Runs -/

/-- Any number of steps that a rule allows. -/
inductive Run (turn : Behaviour σ π ρ) (rule : Rule σ π) : System σ π → System σ π → Prop where
  | refl {s} : Run turn rule s s
  | tail {s s' c s''} :
      Run turn rule s s' → Step turn s' c s'' → rule s' c s'' → Run turn rule s s''

namespace Run

variable {rule rule' : Rule σ π} {s s' s'' : System σ π}

theorem trans (h : Run turn rule s s') (h' : Run turn rule s' s'') : Run turn rule s s'' := by
  induction h' with
  | refl => exact h
  | tail _ hstep hrule ih => exact .tail ih hstep hrule

theorem head {c : Choice π} (hstep : Step turn s c s') (hrule : rule s c s')
    (h : Run turn rule s' s'') : Run turn rule s s'' :=
  (Run.tail .refl hstep hrule).trans h

/-- What every allowed step preserves holds after a run if it held before. -/
theorem preserves {I : System σ π → Prop}
    (step : ∀ {s c s'}, I s → Step turn s c s' → rule s c s' → I s')
    (h : Run turn rule s s') (hI : I s) : I s' := by
  induction h with
  | refl => exact hI
  | tail _ hstep hrule ih => exact step ih hstep hrule

/-- A run under one rule is a run under another one if every step that the first
allows in a system with an invariant is allowed by the second. -/
theorem under {I : System σ π → Prop}
    (step : ∀ {s c s'}, I s → Step turn s c s' → rule s c s' → I s')
    (imp : ∀ {s c s'}, I s → Step turn s c s' → rule s c s' → rule' s c s')
    (h : Run turn rule s s') (hI : I s) : Run turn rule' s s' := by
  induction h with
  | refl => exact .refl
  | tail hrun hstep hrule ih =>
      exact .tail ih hstep (imp (hrun.preserves step hI) hstep hrule)

theorem mono (imp : ∀ {s c s'}, rule s c s' → rule' s c s') (h : Run turn rule s s') :
    Run turn rule' s s' := by
  induction h with
  | refl => exact .refl
  | tail _ hstep hrule ih => exact .tail ih hstep (imp hrule)

theorem length_le (h : Run turn rule s s') : s.processes.length ≤ s'.processes.length := by
  induction h with
  | refl => exact Nat.le_refl _
  | tail _ hstep _ ih => exact Nat.le_trans ih hstep.length_le

end Run

/-! ## Schedules that keep to the clock -/

/-- Whether a process waits, at least until an instant. -/
def WaitsUntil (turn : Behaviour σ π ρ) (s : System σ π) (t : Instant) (p : π) : Prop :=
  match turn s.now s.world p with
  | .waits none => True
  | .waits (some due) => t ≤ due
  | .moves .. => False
  | .ends .. => False

instance (s : System σ π) (t : Instant) (p : π) : Decidable (WaitsUntil turn s t p) := by
  unfold WaitsUntil
  split <;> infer_instance

theorem WaitsUntil.exists_due {s : System σ π} {t : Instant} {p : π} (h : WaitsUntil turn s t p) :
    ∃ due?, turn s.now s.world p = .waits due? ∧ ∀ due, due? = some due → t ≤ due := by
  unfold WaitsUntil at h
  split at h
  next hturn => exact ⟨none, hturn, by simp⟩
  next due hturn => exact ⟨some due, hturn, fun _ hdue => Option.some.inj hdue ▸ h⟩
  next => cases h
  next => cases h

/-- Time passes only while every process waits, and not beyond an instant at
which one of them is due. -/
def Prompt (turn : Behaviour σ π ρ) : Rule σ π := fun s c _ =>
  match c with
  | .pass t => ∀ p ∈ s.running, WaitsUntil turn s t p
  | .turn _ => True
  | .start _ => True

instance (s s' : System σ π) (c : Choice π) : Decidable (Prompt turn s c s') := by
  unfold Prompt
  split <;> infer_instance

/-- Every process waits. -/
def Settled (turn : Behaviour σ π ρ) (s : System σ π) : Prop :=
  ∀ i p, s.process? i = some p → ∃ due?, turn s.now s.world p = .waits due?

/-- Time can pass promptly only when every process waits. -/
theorem Prompt.settled {s s' : System σ π} {t : Instant} (h : Prompt turn s (.pass t) s') :
    Settled turn s := by
  intro i p hp
  obtain ⟨due?, hturn, -⟩ := WaitsUntil.exists_due (h p (System.mem_running hp))
  exact ⟨due?, hturn⟩

/-! ## Runs that are written down -/

/-- The system after a choice, if the choice is possible. -/
def System.step? (turn : Behaviour σ π ρ) (s : System σ π) : Choice π → Option (System σ π)
  | .turn i =>
      match s.process? i with
      | none => none
      | some p =>
          match turn s.now s.world p with
          | .waits _ => none
          | .moves world next _ => some (s.advance i world (some next) [])
          | .ends world _ started _ => some (s.advance i world none started)
  | .start p => some (s.add p)
  | .pass t => if s.now ≤ t then some (s.passTo t) else none

theorem Step.of_step? {s s' : System σ π} {c : Choice π} (h : s.step? turn c = some s') :
    Step turn s c s' := by
  cases c with
  | turn i =>
      simp only [System.step?] at h
      split at h
      · cases h
      next p hp =>
        split at h
        next => cases h
        next ht => cases h; exact .moves hp ht
        next ht => cases h; exact .ends hp ht
  | start p => cases h; exact .start s p
  | pass t =>
      simp only [System.step?] at h
      split at h
      next hle => cases h; exact .pass hle
      next => cases h

/-- The system after a list of choices, if all of them are possible and a rule
allows the steps. -/
def System.follow? (turn : Behaviour σ π ρ) (rule : Rule σ π) [∀ s c s', Decidable (rule s c s')]
    (s : System σ π) : List (Choice π) → Option (System σ π)
  | [] => some s
  | c :: cs =>
      match s.step? turn c with
      | none => none
      | some s' => if rule s c s' then s'.follow? turn rule cs else none

theorem Run.of_follow? {rule : Rule σ π} [∀ s c s', Decidable (rule s c s')]
    {s s' : System σ π} (cs : List (Choice π)) (h : s.follow? turn rule cs = some s') :
    Run turn rule s s' := by
  induction cs generalizing s with
  | nil => cases h; exact .refl
  | cons c cs ih =>
      simp only [System.follow?] at h
      split at h
      next => cases h
      next hstep =>
        split at h
        next hrule => exact .head (.of_step? hstep) hrule (ih h)
        next => cases h

/-- A run can be written down without the system that it reaches. -/
theorem Run.of_isSome {rule : Rule σ π} [∀ s c s', Decidable (rule s c s')] {s : System σ π}
    (cs : List (Choice π)) (h : (s.follow? turn rule cs).isSome = true) :
    Run turn rule s ((s.follow? turn rule cs).get h) :=
  .of_follow? cs (Option.some_get h).symm

end Leasehold.Simulation
