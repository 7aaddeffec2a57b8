import Leasehold.Lock.Process
import Leasehold.Proofs.Simulation.Progress

/-!
# How locks come to rest

At every instant the processes come to rest after finitely many turns, if the lock
managers that are asked wait for some time between two attempts.  The `effort` of a process
bounds the turns that it can have at an instant, and every turn lowers it
(`turn_lowers`).  Whoever waits for an instant waits for one to come, so time can go on.
-/

namespace Leasehold

open Simulation

/-- The turns that a call can have at one instant. -/
def Call.effort (c : Call) : Nat :=
  match c.stage with
  | .approaching _ => 2
  | .refreshing .. => 1

/-- The turns that an errand can have at one instant. -/
def Errand.effort : Errand → Nat
  | .single c => c.effort
  | .comparing _ _ c => c.effort + 2
  | .deleting c => c.effort

/-- The turns that an action on a store can have at one instant. -/
def StoreTask.effort : StoreTask → Nat
  | .action _ => 5
  | .errand e => e.effort
  | .asleep _ => 1

namespace Service

/-- A call arrives, and goes on inside the store for at most one turn. -/
theorem callTurn_lowers (now : Instant) (s : Service) (c : Call) :
    Lowers now c.effort Call.effort (callTurn now s c) := by
  obtain ⟨request, started, stage⟩ := c
  cases stage with
  | approaching due? =>
    simp only [callTurn]
    split
    next =>
      split
      · exact Nat.succ_pos _
      · exact Nat.lt_succ_self _
    next hdue => rintro due rfl; exact lt_of_not_isDue hdue
  | refreshing k ttl due? fails =>
    simp only [callTurn]
    split
    next => exact Nat.succ_pos _
    next hdue => rintro due rfl; exact lt_of_not_isDue hdue

theorem effort_errand_le (s : Service) (now : Instant) (r : Request) :
    (s.errand now r).effort ≤ 4 := by
  unfold errand
  split
  · exact Nat.le_refl 4
  · exact Nat.le_add_left 2 2

theorem turn_lowers (now : Instant) (s : Service) (e : Errand) :
    Lowers now e.effort Errand.effort (s.turn now e) := by
  cases e with
  | single c =>
    simp only [turn]
    exact (callTurn_lowers now s c).within (fun _ h => h) fun _ _ h => h
  | comparing k v c =>
    simp only [turn]
    refine (callTurn_lowers now s c).within (fun _ h => Nat.add_lt_add_right h 2) fun s a h => ?_
    unfold compared
    split
    · split
      · exact Nat.lt_add_of_pos_left h
      · exact Nat.succ_pos _
    · exact Nat.succ_pos _
    · exact Nat.succ_pos _
  | deleting c =>
    simp only [turn]
    exact (callTurn_lowers now s c).within (fun _ h => h) fun _ _ h => h

theorem taskTurn_lowers (now : Instant) (s : Service) (t : StoreTask) :
    Lowers now t.effort StoreTask.effort (s.taskTurn now t) := by
  cases t with
  | action a =>
    cases a with
    | request r => exact Nat.lt_succ_of_le (s.effort_errand_le now r)
    | sleep d => exact Nat.lt_add_of_pos_left (by decide)
    | value | ttl | size | requests | refreshCount | clearRequests | unavailable | refreshFails
    | refreshLatency | latency => exact Nat.succ_pos _
  | errand e =>
    simp only [taskTurn]
    exact (turn_lowers now s e).within (fun _ h => h) fun _ _ h => h
  | asleep due? =>
    simp only [taskTurn]
    split
    next => exact Nat.succ_pos _
    next hdue => rintro due rfl; exact lt_of_not_isDue hdue

end Service

namespace Lock

/-- The turns that a renewal can have at one instant. -/
def RenewalStage.effort (budget : Nat) : RenewalStage → Nat
  | .starting => 6 * budget + 2
  | .waiting cycle _ => 6 * (budget + 1 - cycle) + 1
  | .refreshing cycle _ e => 6 * (budget - cycle) + 1 + e.effort

/-- The turns that a process can have at one instant, if it does not win. -/
def Process.effort (now : Instant) : Process → Nat
  | .action _ => 8
  | .later .. => 9
  | .attempting .. => 6
  | .asking _ _ _ e => e.effort + 1
  | .resting _ _ _ due? => if isDue now due? then 7 else 1
  | .trying _ e => e.effort
  | .releasing _ _ e => e.effort
  | .renewing r stage => stage.effort r.budget
  | .store t => t.effort

variable {now : Instant} {w : World}

/-- A rest that takes some time is not over at once. -/
theorem isDue_after? {d : Duration} (h : 0 < d.nanos) : isDue now (now.after? d) = false := by
  cases hafter : now.after? d with
  | none => rfl
  | some t =>
    have hnanos := Instant.nanos_of_after?_eq_some hafter
    refine decide_eq_false fun hle => ?_
    have hle : t.nanos ≤ now.nanos := hle
    omega

theorem effort_rest {bid : Bid} {deadline? : Option Instant} {attempts : Nat}
    (h : 0 < (w.manager bid.manager).config.backoff.nanos) :
    (rest w now bid deadline? attempts).effort now = 1 := by
  simp only [rest, Process.effort, isDue_after? h, Bool.false_eq_true, if_false]

/-- The earlier of two instants that have not come has not come. -/
theorem lt_of_earliest {t? u? : Option Instant} {due : Instant} (ht : ¬ isDue now t? = true)
    (hu : ¬ isDue now u? = true) (h : earliest t? u? = some due) : now < due := by
  cases t? with
  | none => subst h; exact lt_of_not_isDue hu
  | some t =>
    cases u? with
    | none => cases h; exact lt_of_not_isDue ht
    | some u =>
      simp only [earliest] at h
      split at h
      · cases h; exact lt_of_not_isDue ht
      · cases h; exact lt_of_not_isDue hu

theorem begin_lowers (now : Instant) (w : World) (a : Action) :
    Lowers now 8 (Process.effort now) (begin now w a) := by
  have herrand : ∀ (s : Service) (r : Request), (s.errand now r).effort < 8 := fun s r =>
    Nat.lt_of_le_of_lt (s.effort_errand_le now r) (by decide)
  cases a with
  | acquire manager key owner lease timeout cancel =>
    simp only [begin, acquire]
    split
    · exact Nat.succ_pos _
    · exact Nat.lt_add_of_pos_left (by decide)
  | acquireDefault manager key timeout cancel =>
    simp only [begin, acquire]
    split
    · exact Nat.succ_pos _
    · exact Nat.lt_add_of_pos_left (by decide)
  | tryAcquire manager key owner lease cancel =>
    simp only [begin, tryAcquire]
    split
    · exact Nat.succ_pos _
    · exact herrand _ _
  | release manager key owner => exact herrand _ _
  | cancel | child | config => exact Nat.succ_pos _
  | store a => exact Nat.lt_add_of_pos_left (by decide)

theorem renewalTurn_lowers (now : Instant) (w : World) (r : Renewing) (stage : RenewalStage) :
    Lowers now (stage.effort r.budget) (Process.effort now) (renewalTurn now w r stage) := by
  cases stage with
  | starting =>
    simp only [renewalTurn]
    split
    · exact Nat.succ_pos _
    · simp only [Lowers, Process.effort, RenewalStage.effort]
      omega
  | waiting cycle tick? =>
    simp only [renewalTurn]
    split
    · exact Nat.succ_pos _
    next hbudget =>
      split
      · exact Nat.succ_pos _
      split
      next => rintro _ ⟨⟩
      next tick =>
        split
        next =>
          have herrand := w.service.effort_errand_le now (.refresh r.key r.interval)
          simp only [Lowers, Process.effort, RenewalStage.effort]
          omega
        next htick => rintro _ ⟨⟩; exact Nat.lt_of_not_le htick
  | refreshing cycle next? e =>
    simp only [renewalTurn]
    refine (w.service.turn_lowers now e).within (fun q h => ?_) fun _ _ h => ?_
    · simp only [Process.effort, RenewalStage.effort]
      omega
    · simp only [Lowers, Process.effort, RenewalStage.effort]
      omega

/-- Every turn lowers the effort of the process that has it, and whoever waits
waits for an instant to come. -/
theorem turn_lowers (p : Process) (hbackoff : ∀ bid deadline? attempts e,
      p = .asking bid deadline? attempts e → 0 < (w.manager bid.manager).config.backoff.nanos) :
    Lowers now (p.effort now) (Process.effort now) (turn now w p) := by
  cases p with
  | action a => exact begin_lowers now w a
  | later due? a =>
    simp only [turn]
    split
    next => exact Nat.lt_succ_self _
    next hdue => rintro due rfl; exact lt_of_not_isDue hdue
  | attempting bid deadline? attempts =>
    simp only [turn]
    split
    next => exact Nat.succ_pos _
    next => exact Nat.succ_lt_succ (Nat.lt_succ_of_le (w.service.effort_errand_le now _))
  | asking bid deadline? attempts e =>
    simp only [turn]
    refine (w.service.turn_lowers now e).within (fun _ h => Nat.succ_lt_succ h) fun s a h => ?_
    have hrest : ∀ n, (rest (w.withService s) now bid deadline? n).effort now < e.effort + 1 := by
      intro n
      have hbackoff : 0 < ((w.withService s).manager bid.manager).config.backoff.nanos :=
        hbackoff _ _ _ _ rfl
      rw [effort_rest hbackoff]
      exact Nat.succ_lt_succ h
    cases a with
    | acquired => exact Nat.succ_pos _
    | occupied | value | done | removed | failed => exact hrest _
  | resting bid deadline? attempts due? =>
    simp only [turn]
    split
    next =>
      simp only [gaveUp, Lowers, Process.effort]
      split
      · exact Nat.succ_pos _
      · exact Nat.succ_pos _
    split
    next hdue =>
      simp only [Lowers, Process.effort, hdue, if_true]
      exact Nat.lt_succ_self 6
    next hdeadline hdue =>
      rw [not_or] at hdeadline
      exact fun _ => lt_of_earliest hdeadline.2 hdue
  | trying bid e =>
    simp only [turn]
    refine (w.service.turn_lowers now e).within (fun _ h => h) fun w' a h => ?_
    cases a with
    | acquired | occupied | value | done | removed | failed => exact h
  | releasing key owner e =>
    simp only [turn]
    exact (w.service.turn_lowers now e).within (fun _ h => h) fun _ _ h => h
  | renewing r stage => exact renewalTurn_lowers now w r stage
  | store t =>
    simp only [turn]
    exact (w.service.taskTurn_lowers now t).within (fun _ h => h) fun _ _ h => h

end Lock

end Leasehold
