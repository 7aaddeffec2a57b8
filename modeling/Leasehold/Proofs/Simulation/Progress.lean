import Leasehold.Proofs.Simulation.Tally

/-!
# How runs go on

If every turn lowers a measure of the process that has it and starts no other
process, then turns alone lead to a system in which every process waits
(`exists_settled`).  If moreover whoever waits does so for an instant to come, then
time can pass a moment at a time, and every instant is reached (`exists_reached`).
-/

namespace Leasehold.Simulation

variable {σ π ρ : Type} {turn : Behaviour σ π ρ}

/-- Whoever waits waits for an instant to come, and every other turn lowers a
measure of the process that has it. -/
def Lowers (now : Instant) (effort : Nat) (measure : π → Nat) : Turn σ π ρ → Prop
  | .waits due? => ∀ due, due? = some due → now < due
  | .moves _ next _ => measure next < effort
  | .ends .. => 0 < effort

/-- A process lowers its measure if the part of it that has the turn does so, and
if what it does when that part is over does so. -/
theorem Lowers.within {σ' π' ρ' : Type} {now : Instant} {n m : Nat} {f : π → Nat}
    {g : π' → Nat} {t : Turn σ π ρ} {world : σ → σ'} {next : π → π'}
    {done : σ' → ρ → Turn σ' π' ρ'} (h : Lowers now n f t) (hnext : ∀ p, f p < n → g (next p) < m)
    (hdone : ∀ w a, 0 < n → Lowers now m g (done (world w) a)) :
    Lowers now m g (t.within world next done) := by
  cases t with
  | waits due? => exact h
  | moves w p records => exact hnext p h
  | ends w a started records =>
    have hrest := hdone w a h
    simp only [Turn.within]
    cases hturn : done (world w) a <;> simpa [Turn.after, Lowers, hturn] using hrest

theorem lt_of_not_isDue {now due : Instant} (h : ¬ isDue now (some due) = true) : now < due := by
  rw [isDue, decide_eq_true_iff] at h
  exact Nat.lt_of_not_le h

/-- Processes have turns, and time passes promptly, but nothing is started. -/
def Unaided (turn : Behaviour σ π ρ) : Rule σ π := fun s c s' =>
  Prompt turn s c s' ∧ ∀ p, c ≠ .start p

/-- A process that does not wait has a turn. -/
theorem exists_turn {s : System σ π} (h : ¬ Settled turn s) :
    ∃ i s', Step turn s (.turn i) s' := by
  obtain ⟨i, hi⟩ := Classical.not_forall.mp h
  obtain ⟨p, hi⟩ := Classical.not_forall.mp hi
  obtain ⟨hp, hwaits⟩ := Classical.not_imp.mp hi
  cases hturn : turn s.now s.world p with
  | waits due? => exact absurd ⟨due?, hturn⟩ hwaits
  | moves => exact ⟨i, _, .moves hp hturn⟩
  | ends => exact ⟨i, _, .ends hp hturn⟩

/-- A turn that lowers the measure of its process and starts nothing lowers the
sum of all measures. -/
theorem Step.tally_lt {s s' : System σ π} {i : Nat} {measure : π → Nat}
    (h : Step turn s (.turn i) s') (hlength : s'.processes.length = s.processes.length)
    (hlowers : ∀ p, Lowers s.now (measure p) measure (turn s.now s.world p)) :
    s'.tally measure < s.tally measure := by
  cases h with
  | @moves _ p world next records hp hturn =>
    have hsum := System.tally_advance measure hp world (some next) []
    have hlt : measure next < measure p := by simpa [Lowers, hturn] using hlowers p
    simp only [measure?_some, List.map_nil, List.sum_nil] at hsum
    omega
  | @ends _ p world result started records hp hturn =>
    have hnone : started = [] := by
      rw [System.length_advance] at hlength
      exact List.eq_nil_of_length_eq_zero (by omega)
    have hsum := System.tally_advance measure hp world none started
    have hlt : 0 < measure p := by simpa [Lowers, hturn] using hlowers p
    simp only [hnone, measure?_none, List.map_nil, List.sum_nil] at hsum ⊢
    omega

section

variable {I : System σ π → Prop} {effort : Instant → π → Nat}
  (hlowers : ∀ {s : System σ π}, I s → ∀ p,
    Lowers s.now (effort s.now p) (effort s.now) (turn s.now s.world p))
  (hturn : ∀ {s i s'}, I s → Step turn s (.turn i) s' →
    I s' ∧ s'.processes.length = s.processes.length)
  (hpass : ∀ {s t}, I s → s.now ≤ t → Prompt turn s (.pass t) (s.passTo t) → I (s.passTo t))

include hlowers hturn

theorem exists_settled {s : System σ π} (hI : I s) :
    ∃ s', Run turn (Unaided turn) s s' ∧ I s' ∧ Settled turn s' ∧ s'.now = s.now := by
  generalize hn : s.tally (effort s.now) = n
  induction n using Nat.strongRecOn generalizing s with
  | ind n ih =>
    by_cases hsettled : Settled turn s
    · exact ⟨s, .refl, hI, hsettled, rfl⟩
    · obtain ⟨i, s₁, hstep⟩ := exists_turn hsettled
      obtain ⟨hI₁, hlength⟩ := hturn hI hstep
      have hlt := hstep.tally_lt hlength (hlowers hI)
      have hsame : s₁.now = s.now := by cases hstep <;> rfl
      rw [hn, ← hsame] at hlt
      obtain ⟨s', hrun, hI', hsettled', hnow⟩ := ih _ hlt hI₁ rfl
      exact ⟨s', .head hstep ⟨trivial, by rintro p ⟨⟩⟩ hrun, hI', hsettled', hnow.trans hsame⟩

omit hturn in
/-- In a settled system a moment can pass. -/
theorem Settled.prompt {s : System σ π} (h : Settled turn s) (hI : I s) {t : Instant}
    (ht : t.nanos = s.now.nanos + 1) : Prompt turn s (.pass t) (s.passTo t) := by
  intro p hp
  obtain ⟨i, hi⟩ := System.exists_process?_of_mem_running hp
  obtain ⟨due?, hwaits⟩ := h i p hi
  have hfuture := hlowers hI p
  unfold WaitsUntil
  rw [hwaits] at hfuture ⊢
  cases due? with
  | none => trivial
  | some due =>
    have hlt : s.now.nanos < due.nanos := hfuture due rfl
    show t.nanos ≤ due.nanos
    omega

include hpass in
theorem exists_reached {s : System σ π} (hI : I s) (t : Instant) :
    ∃ s', Run turn (Unaided turn) s s' ∧ I s' ∧ Settled turn s' ∧ t ≤ s'.now := by
  generalize hn : t.nanos - s.now.nanos = n
  induction n generalizing s with
  | zero =>
    obtain ⟨s', hrun, hI', hsettled, hnow⟩ := exists_settled hlowers hturn hI
    have hnanos : s'.now.nanos = s.now.nanos := congrArg Instant.nanos hnow
    refine ⟨s', hrun, hI', hsettled, ?_⟩
    show t.nanos ≤ s'.now.nanos
    omega
  | succ n ih =>
    obtain ⟨s₁, hrun, hI₁, hsettled, hnow⟩ := exists_settled hlowers hturn hI
    have hnanos : s₁.now.nanos = s.now.nanos := congrArg Instant.nanos hnow
    have hlimit : s₁.now.nanos + 1 < 9223372036854775808000000000 := by
      have := t.nanos_lt
      omega
    let next : Instant := ⟨s₁.now.nanos + 1, hlimit⟩
    have hle : s₁.now ≤ next := Nat.le_succ _
    have hprompt := Settled.prompt hlowers hsettled hI₁ (t := next) rfl
    have hleft : t.nanos - (s₁.passTo next).now.nanos = n := by
      show t.nanos - (s₁.now.nanos + 1) = n
      omega
    obtain ⟨s', hrun', hI', hsettled', ht⟩ := ih (hpass hI₁ hle hprompt) hleft
    exact ⟨s', hrun.trans (.head (.pass hle) ⟨hprompt, by rintro p ⟨⟩⟩ hrun'), hI', hsettled', ht⟩

end

end Leasehold.Simulation
