import Leasehold.Proofs.Pool.Deeds
import Leasehold.Proofs.Simulation.Tally

/-!
# Runs of a pool

A run begins in a `Fresh` system: the pool was just filled, with resources that
are all idle, and nothing is under way.  The rule `Admitted` lets users do what
they like, in any order and at any time, but give back only what was handed out.
The switches, the latencies and the clocks may be set at any time, so every
pattern of failures is among the runs.

Every system that a run reaches is `Sound`, and so each of its steps is a deed
(`Sound.doing`).
-/

namespace Leasehold.Pool.Scenario

open Simulation

/-- A pool, what is done with it, and the time. -/
abbrev Use := System World Process

/-- A process that users may start. -/
def Process.Admitted : Process → Prop
  | .action a => a.Honest
  | _ => False

/-- Users start actions of their own only, and give back only what was handed
out. -/
def Admitted : Rule World Process := fun _ c _ =>
  match c with
  | .start p => p.Admitted
  | .turn _ => True
  | .pass _ => True

instance (a : Action) : Decidable a.Honest := by
  unfold Action.Honest
  split <;> infer_instance

instance (p : Process) : Decidable p.Admitted := by
  unfold Process.Admitted
  split <;> infer_instance

instance (s s' : Use) (c : Choice Process) : Decidable (Admitted s c s') := by
  unfold Admitted
  split <;> infer_instance

/-- A pool that was just filled: its resources, the first ones that the supply has
made, are idle. -/
structure Fresh (s : Use) : Prop where
  valid : s.world.inner.pool.config.fault? = none
  idle : s.world.inner.pool.idle.map (·.id) =
    List.range' 1 s.world.inner.pool.config.initial.toNat
  opened : s.world.inner.pool.opened = s.world.inner.pool.config.initial.toNat
  unclosed : s.world.inner.pool.closed = false
  stats : s.world.inner.pool.stats = { created := s.world.inner.pool.config.initial.toNat }
  made : s.world.inner.supply.made = s.world.inner.pool.config.initial.toNat
  destroyed : s.world.inner.supply.destroyed = []
  held : s.world.held = []
  quiet : s.running = []

variable {s s' : Use} {c : Choice Process}

/-! ## Sound systems -/

/-- A system whose processes are fit. -/
def Sound (s : Use) : Prop := ∀ i p, s.process? i = some p → p.Fit

/-- What a choice does in a sound system. -/
inductive Doing (s : Use) : Choice Process → Use → Prop where
  | deed {i p w' next? out?} :
      s.process? i = some p → Deed s.now s.world p w' next? out? →
      Doing s (.turn i) (s.advance i w' next? [])
  | start {p} : p.Admitted → Doing s (.start p) (s.add p)
  | pass (t) : Doing s (.pass t) (s.passTo t)

theorem Sound.isDeed {i : Nat} {p : Process} (hs : Sound s) (hp : s.process? i = some p) :
    IsDeed s.now s.world p (turn s.now s.world p) := turn_isDeed (hs i p hp)

/-- Every admitted step of a sound system is a deed, the start of an action, or a
lapse of time. -/
theorem Sound.doing (hs : Sound s) (h : Simulation.Step turn s c s') (hrule : Admitted s c s') :
    Doing s c s' := by
  cases h with
  | moves hp hturn =>
    have hdeed := hs.isDeed hp
    rw [hturn] at hdeed
    exact .deed hp hdeed
  | ends hp hturn =>
    have hdeed := hs.isDeed hp
    rw [hturn] at hdeed
    obtain ⟨rfl, hdeed⟩ := hdeed
    exact .deed hp hdeed
  | start p => exact .start hrule
  | pass => exact .pass _

theorem Drains.fit {now : Instant} {w w' : World} {count : Nat} {rest : List Idle}
    {next? : Option Process} {out? : Option Outcome}
    (h : Drains now w count rest w' next? out?) : ∀ q, next? = some q → q.Fit := by
  cases h <;> rintro _ ⟨⟩
  trivial

theorem Process.IsAside.fit {p : Process} (h : p.IsAside) : p.Fit := by
  cases p with
  | action a => cases a <;> trivial
  | operation => cases h
  | checking | asleep => trivial

/-- A measure that is nothing for processes aside is nothing for the next form of
one. -/
theorem measure?_eq_zero_of_aside {f : Process → Nat} (hf : ∀ q, q.IsAside → f q = 0)
    {next? : Option Process} (h : ∀ q, next? = some q → q.IsAside) : measure? f next? = 0 := by
  cases next? with
  | none => rfl
  | some q => exact hf q (h q rfl)

/-- A process stays fit. -/
theorem Deed.fit_next {now : Instant} {w w' : World} {p : Process} {next? : Option Process}
    {out? : Option Outcome} (h : Deed now w p w' next? out?) : ∀ q, next? = some q → q.Fit := by
  cases h with
  | aside _ _ hnext _ => exact fun q hq => (hnext q hq).fit
  | released _ hdrains => exact hdrains.fit
  | drained hdrains => exact hdrains.fit
  | _ => rintro _ ⟨⟩ <;> trivial

theorem Process.Admitted.action {p : Process} (h : p.Admitted) : ∃ a, p = .action a ∧ a.Honest := by
  cases p with
  | action a => exact ⟨a, rfl, h⟩
  | operation | checking | asleep => cases h

theorem Process.Admitted.fit {p : Process} (h : p.Admitted) : p.Fit := by
  obtain ⟨a, rfl, ha⟩ := h.action
  exact ha

theorem Sound.step (hs : Sound s) (h : Simulation.Step turn s c s') (hrule : Admitted s c s') :
    Sound s' := by
  intro j q hq
  cases hs.doing h hrule with
  | deed hp hdeed =>
    obtain ⟨-, hq⟩ | ⟨-, hq⟩ | ⟨k, -, hnone⟩ := System.process?_advance_cases hq
    · exact hs j q hq
    · exact hdeed.fit_next q hq
    · cases hnone
  | start hadmitted =>
    obtain hq | ⟨-, rfl⟩ := System.process?_add_cases hq
    · exact hs j q hq
    · exact hadmitted.fit
  | pass t => exact hs j q hq

theorem Fresh.length_idle (h : Fresh s) :
    s.world.inner.pool.idle.length = s.world.inner.pool.config.initial.toNat := by
  have hlength := congrArg List.length h.idle
  rwa [List.length_map, List.length_range'] at hlength

theorem Fresh.sound (h : Fresh s) : Sound s := by
  intro i p hp
  have hrunning := System.mem_running hp
  rw [h.quiet] at hrunning
  cases hrunning

/-- What every deed, every start of an action and every lapse of time keeps holds all
along a run from a fresh system. -/
theorem Fresh.preserves {I : Use → Prop} (h : Fresh s)
    (hstep : ∀ {t c t'}, I t → Doing t c t' → I t') (hI : I s) (hrun : Run turn Admitted s s') :
    I s' :=
  (hrun.preserves (I := fun t => Sound t ∧ I t) (fun ⟨ht, hI⟩ hst hrule =>
    ⟨ht.step hst hrule, hstep hI (ht.doing hst hrule)⟩) ⟨h.sound, hI⟩).2

theorem Fresh.run_sound (h : Fresh s) (hrun : Run turn Admitted s s') : Sound s' :=
  hrun.preserves Sound.step h.sound

/-! ## Resources that are handed out -/

/-- A process ends with a resource for its user. -/
def HandsOut (s : Use) (i id : Nat) (s' : Use) : Prop :=
  ∃ p w records, s.process? i = some p ∧
    turn s.now s.world p = .ends w (.result (.resource id)) [] records ∧
    s' = s.advance i w none []

theorem HandsOut.step {i id : Nat} (h : HandsOut s i id s') :
    Simulation.Step turn s (.turn i) s' := by
  obtain ⟨p, w, records, hp, hturn, rfl⟩ := h
  exact .ends hp hturn

theorem HandsOut.deed {i id : Nat} (h : HandsOut s i id s') (hs : Sound s) :
    ∃ p w, s.process? i = some p ∧ Deed s.now s.world p w none (some (.result (.resource id))) ∧
      s' = s.advance i w none [] := by
  obtain ⟨p, w, records, hp, hturn, rfl⟩ := h
  have hdeed := hs.isDeed hp
  rw [hturn] at hdeed
  exact ⟨p, w, hp, hdeed.2, rfl⟩

end Leasehold.Pool.Scenario
