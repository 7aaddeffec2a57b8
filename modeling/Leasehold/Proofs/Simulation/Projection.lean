import Leasehold.Proofs.Simulation.Omission
import Mathlib.Data.Nat.Count
import Mathlib.Order.Defs.PartialOrder

/-!
# Leaving many processes out

Two runs side by side: one is the other without all processes that are not *kept*.
What is kept is settled when a process joins.  The kept processes get new numbers, in
the same order (`rank`).

In the smaller run other names may be in use for the same things, because fewer of
them were given out.  So the worlds, and the processes that are kept, are related
under a renaming that may grow with every step.  A `Parting` says how, and which
processes are left out.

If every turn of a kept process is matched, and the turns of all others pass without
a difference (`Parting.Sound`), then a history without these is a history, with the
endings of the kept processes (`Parting.Sound.history`).
-/

namespace Leasehold.Simulation

variable {Γ σ π ρ : Type} {turn : Behaviour σ π ρ}

/-! ## Steps are determined -/

theorem Step.step?_eq {s s' : System σ π} {c : Choice π} (h : Step turn s c s') :
    s.step? turn c = some s' := by
  cases h with
  | moves hp hturn | ends hp hturn => simp only [System.step?, hp, hturn]
  | start => rfl
  | pass hle => exact if_pos hle

/-- The choices of a history settle where it leads and who ends. -/
theorem History.unique {rule : Rule σ π} {s t t' : System σ π} {cs : List (Choice π)}
    {es es' : List (Ending ρ)} (h : History turn rule s cs es t)
    (h' : History turn rule s cs es' t') : es = es' ∧ t = t' := by
  induction h generalizing es' with
  | nil =>
    cases h'
    exact ⟨rfl, rfl⟩
  | cons hstep _ _ ih =>
    cases h' with
    | cons hstep' _ hrest =>
      cases hstep.step?_eq.symm.trans hstep'.step?_eq
      obtain ⟨rfl, rfl⟩ := ih hrest
      exact ⟨rfl, rfl⟩

/-- A history passes through a system wherever its choices are divided. -/
theorem History.split {rule : Rule σ π} {s t : System σ π} {cs cs' : List (Choice π)}
    {es : List (Ending ρ)} (h : History turn rule s (cs ++ cs') es t) :
    ∃ es₁ es₂ u, es = es₁ ++ es₂ ∧ History turn rule s cs es₁ u ∧
      History turn rule u cs' es₂ t := by
  induction cs generalizing s es with
  | nil => exact ⟨[], es, s, rfl, .nil, h⟩
  | cons c cs ih =>
    cases h with
    | @cons _ _ s' _ es' _ hstep hrule hrest =>
      obtain ⟨es₁, es₂, u, rfl, hfirst, hlast⟩ := ih hrest
      exact ⟨_, es₂, u, (List.append_assoc ..).symm, .cons hstep hrule hfirst, hlast⟩

/-! ## Who joins -/

namespace System

/-- The processes that a choice adds. -/
def joins (turn : Behaviour σ π ρ) (s : System σ π) : Choice π → List π
  | .turn i =>
      match s.process? i with
      | none => []
      | some p =>
          match turn s.now s.world p with
          | .ends _ _ started _ => started
          | .waits _ | .moves .. => []
  | .start p => [p]
  | .pass _ => []

/-- The processes that a list of choices adds, in the order of their numbers. -/
def joined (turn : Behaviour σ π ρ) (s : System σ π) : List (Choice π) → List π
  | [] => []
  | c :: cs =>
      s.joins turn c ++
        match s.step? turn c with
        | none => []
        | some s' => s'.joined turn cs

theorem joins_of_moves {s : System σ π} {i : Nat} {p : π} {w : σ} {next : π}
    {records : List Log.Record} (hp : s.process? i = some p)
    (hturn : turn s.now s.world p = .moves w next records) : s.joins turn (.turn i) = [] := by
  simp only [joins, hp, hturn]

theorem joins_of_ends {s : System σ π} {i : Nat} {p : π} {w : σ} {result : ρ} {started : List π}
    {records : List Log.Record} (hp : s.process? i = some p)
    (hturn : turn s.now s.world p = .ends w result started records) :
    s.joins turn (.turn i) = started := by
  simp only [joins, hp, hturn]

end System

theorem Step.joined_cons {s s' : System σ π} {c : Choice π} (h : Step turn s c s')
    (cs : List (Choice π)) : s.joined turn (c :: cs) = s.joins turn c ++ s'.joined turn cs := by
  simp only [System.joined, h.step?_eq]

/-- Who joins gets the next numbers. -/
theorem Step.length_eq {s s' : System σ π} {c : Choice π} (h : Step turn s c s') :
    s'.processes.length = s.processes.length + (s.joins turn c).length := by
  cases h with
  | moves hp hturn =>
    rw [System.joins_of_moves hp hturn, System.length_advance]
  | ends hp hturn =>
    rw [System.joins_of_ends hp hturn, System.length_advance]
  | start => simp [System.add, System.joins]
  | pass => rfl

/-- The processes of a history have the numbers of those that were there and of those
that joined. -/
theorem History.joined_append {rule : Rule σ π} {s t : System σ π} {cs : List (Choice π)}
    {es : List (Ending ρ)} (h : History turn rule s cs es t) (cs' : List (Choice π)) :
    s.joined turn (cs ++ cs') = s.joined turn cs ++ t.joined turn cs' := by
  induction h with
  | nil => rfl
  | cons hstep _ _ ih =>
    rw [List.cons_append, hstep.joined_cons, hstep.joined_cons, ih, List.append_assoc]

theorem History.length_eq {rule : Rule σ π} {s t : System σ π} {cs : List (Choice π)}
    {es : List (Ending ρ)} (h : History turn rule s cs es t) :
    t.processes.length = s.processes.length + (s.joined turn cs).length := by
  induction h with
  | nil => rfl
  | cons hstep _ _ ih =>
    rw [ih, hstep.length_eq, hstep.joined_cons, List.length_append, Nat.add_assoc]

/-! ## Numbers of those that are kept -/

variable {kept : Nat → Bool}

/-- How many numbers before `i` are kept: the number of `i` among those. -/
def rank (kept : Nat → Bool) (i : Nat) : Nat := Nat.count (fun j => kept j = true) i

theorem rank_inj {i j : Nat} (hi : kept i = true) (hj : kept j = true)
    (h : rank kept i = rank kept j) : i = j :=
  Nat.count_injective hi hj h

theorem rank_lt {i n : Nat} (hi : kept i = true) (h : i < n) : rank kept i < rank kept n :=
  Nat.count_strict_mono hi h

theorem rank_add_of_kept {n m : Nat} (h : ∀ j < m, kept (n + j) = true) :
    rank kept (n + m) = rank kept n + m := by
  rw [rank, Nat.count_add, rank, Nat.count_iff_forall.mpr h]

theorem rank_add_of_omitted {n m : Nat} (h : ∀ j < m, kept (n + j) = false) :
    rank kept (n + m) = rank kept n := by
  have hnone : ∀ j < m, ¬ kept (n + j) = true := fun j hj => Bool.not_eq_true _ ▸ h j hj
  rw [rank, Nat.count_add, rank, Nat.count_iff_forall_not.mpr hnone, Nat.add_zero]

/-- Every smaller number is the rank of one that is kept. -/
theorem exists_rank_eq {i' n : Nat} (h : i' < rank kept n) :
    ∃ i < n, kept i = true ∧ rank kept i = i' := by
  induction n with
  | zero => exact absurd h (Nat.not_lt_zero _)
  | succ n ih =>
    have hsucc : rank kept (n + 1) = rank kept n + if kept n = true then 1 else 0 :=
      Nat.count_succ _ n
    by_cases hlt : i' < rank kept n
    · obtain ⟨i, hi, hkept⟩ := ih hlt
      exact ⟨i, Nat.lt_succ_of_lt hi, hkept⟩
    · cases hn : kept n with
      | true =>
        simp only [hn, if_true] at hsucc
        exact ⟨n, Nat.lt_succ_self n, hn, by omega⟩
      | false =>
        simp only [hn, Bool.false_eq_true, if_false] at hsucc
        omega

/-- A choice when only some processes are kept. -/
def Choice.project (keeps : π → Bool) (kept : Nat → Bool) : Choice π → Option (Choice π)
  | .turn i => if kept i = true then some (.turn (rank kept i)) else none
  | .start p => if keeps p = true then some (.start p) else none
  | .pass t => some (.pass t)

/-- An ending when only some processes are kept. -/
def Ending.project (kept : Nat → Bool) (e : Ending ρ) : Option (Ending ρ) :=
  if kept e.number = true then some ⟨rank kept e.number, e.result, e.instant⟩ else none

/-- What is kept of those who join from the number `n` on is what `keeps` says. -/
def Settles (keeps : π → Bool) (kept : Nat → Bool) (n : Nat) (l : List π) : Prop :=
  ∀ j p, l[j]? = some p → kept (n + j) = keeps p

theorem settles_append {keeps : π → Bool} {n : Nat} {l l' : List π} :
    Settles keeps kept n (l ++ l') ↔
      Settles keeps kept n l ∧ Settles keeps kept (n + l.length) l' := by
  constructor
  · intro h
    refine ⟨fun j p hp => h j p ?_, fun j p hp => ?_⟩
    · rwa [List.getElem?_append_left (List.getElem?_eq_some_iff.mp hp).1]
    · rw [Nat.add_assoc]
      refine h (l.length + j) p ?_
      rwa [List.getElem?_append_right (Nat.le_add_right _ _), Nat.add_sub_cancel_left]
  · rintro ⟨h, h'⟩ j p hp
    by_cases hj : j < l.length
    · exact h j p (by rwa [List.getElem?_append_left hj] at hp)
    · obtain ⟨m, rfl⟩ := Nat.exists_eq_add_of_le (Nat.le_of_not_lt hj)
      rw [List.getElem?_append_right (Nat.le_add_right _ _), Nat.add_sub_cancel_left] at hp
      rw [← Nat.add_assoc]
      exact h' m p hp

/-- Which of the processes that are listed under their numbers are kept. -/
def keptOf (keeps : π → Bool) (l : List π) (i : Nat) : Bool := l[i]?.any keeps

theorem settles_keptOf (keeps : π → Bool) (l : List π) : Settles keeps (keptOf keeps l) 0 l := by
  intro j p hp
  rw [Nat.zero_add, keptOf, hp, Option.any_some]

theorem Settles.of_forall {keeps : π → Bool} {n : Nat} {l : List π} {b : Bool}
    (h : Settles keeps kept n l) (hl : ∀ p ∈ l, keeps p = b) : ∀ j < l.length, kept (n + j) = b :=
  fun j hj => (h j l[j] (List.getElem?_eq_getElem hj)).trans (hl _ (List.getElem_mem hj))

/-! ## A system and a part of it -/

/-- How a system and a part of it stand to each other.  `Γ` holds the renamings. -/
structure Parting (Γ σ π : Type) where
  /-- Whether a process that joins is kept. -/
  keeps : π → Bool
  /-- Whether users may start a process. -/
  admits : σ → π → Prop
  /-- A world at an instant, and the world of the part. -/
  world : Γ → Instant → σ → σ → Prop
  /-- A process that is kept, and how it stands in the part. -/
  process : Γ → π → π → Prop
  /-- A process that is left out. -/
  omitted : π → Prop

/-- Users start only processes that are admitted, under some schedule. -/
def Schedule.admitting (turn : Behaviour σ π ρ) (schedule : Schedule) (admits : σ → π → Prop) :
    Rule σ π := fun s c t =>
  schedule.rule turn s c t ∧ ∀ p, c = .start p → admits s.world p

instance (turn : Behaviour σ π ρ) (schedule : Schedule) (admits : σ → π → Prop)
    [∀ w p, Decidable (admits w p)] (s t : System σ π) (c : Choice π) :
    Decidable (schedule.admitting turn admits s c t) :=
  match c with
  | .start p =>
      decidable_of_iff (schedule.rule turn s (.start p) t ∧ admits s.world p)
        (and_congr_right fun _ => ⟨by rintro h _ ⟨⟩; exact h, fun h => h p rfl⟩)
  | .turn i =>
      decidable_of_iff (schedule.rule turn s (.turn i) t) (and_iff_left (by rintro _ ⟨⟩)).symm
  | .pass u =>
      decidable_of_iff (schedule.rule turn s (.pass u) t) (and_iff_left (by rintro _ ⟨⟩)).symm

namespace Parting

variable {D : Parting Γ σ π} {g g' : Γ} {now : Instant}

/-- The turn of a process and the turn that it has in the part. -/
inductive Matches (D : Parting Γ σ π) (g : Γ) (now : Instant) : Turn σ π ρ → Turn σ π ρ → Prop where
  | waits {due?} : Matches D g now (.waits due?) (.waits due?)
  | moves {w w' p p' records} :
      D.world g now w w' → D.process g p p' →
      Matches D g now (.moves w p records) (.moves w' p' records)
  | ends {w w' a started started' records} :
      D.world g now w w' → List.Forall₂ (D.process g) started started' →
      (∀ p ∈ started, D.keeps p = true) →
      Matches D g now (.ends w a started records) (.ends w' a started' records)

/-- What the turn of a process that is left out may do: the part stays as it is. -/
def Passes (D : Parting Γ σ π) (g : Γ) (now : Instant) (w' : σ) : Turn σ π ρ → Prop
  | .waits _ => True
  | .moves w p _ => D.world g now w w' ∧ D.omitted p
  | .ends w _ started _ => D.world g now w w' ∧ ∀ p ∈ started, D.omitted p ∧ D.keeps p = false

theorem Matches.after {t t' : Turn σ π ρ} (h : D.Matches g now t t')
    (records : List Log.Record) : D.Matches g now (t.after records) (t'.after records) := by
  cases h with
  | waits => exact .waits
  | moves hw hp => exact .moves hw hp
  | ends hw hl hkeeps => exact .ends hw hl hkeeps

theorem Passes.after {w' : σ} {t : Turn σ π ρ} (h : D.Passes g now w' t)
    (records : List Log.Record) : D.Passes g now w' (t.after records) := by
  cases t with
  | waits | moves | ends => exact h

/-- Every turn of a process that is kept is matched under a renaming that has grown,
and the part does not notice the turns of any other. -/
structure Sound [Preorder Γ] (D : Parting Γ σ π) (turn : Behaviour σ π ρ) : Prop where
  mono : ∀ {g g' p p'}, g ≤ g' → D.process g p p' → D.process g' p p'
  later : ∀ {g now t w w'}, now ≤ t → D.world g now w w' → D.world g t w w'
  admitted : ∀ {g now w w' p}, D.world g now w w' → D.admits w p → D.keeps p = true →
    D.admits w' p ∧ D.process g p p
  left : ∀ {g now w w' p}, D.world g now w w' → D.admits w p → D.keeps p = false → D.omitted p
  matched : ∀ {g now w w' p p'}, D.world g now w w' → D.process g p p' →
    ∃ g', g ≤ g' ∧ D.Matches g' now (turn now w p) (turn now w' p')
  passed : ∀ {g now w w' p}, D.world g now w w' → D.omitted p → D.Passes g now w' (turn now w p)

/-- A system and its part: the processes of the part are those that are kept, in
order. -/
structure Projects (D : Parting Γ σ π) (kept : Nat → Bool) (g : Γ) (s s' : System σ π) : Prop where
  now : s'.now = s.now
  world : D.world g s.now s.world s'.world
  length : s'.processes.length = rank kept s.processes.length
  process : ∀ i, kept i = true → i < s.processes.length →
    Option.Rel (D.process g) (s.process? i) (s'.process? (rank kept i))
  omitted : ∀ i p, kept i = false → s.process? i = some p → D.omitted p

namespace Projects

variable {s s' : System σ π}

/-- A system without processes is its own part. -/
theorem of_nil (h : s.processes = []) (hworld : D.world g s.now s.world s.world) :
    D.Projects kept g s s where
  now := rfl
  world := hworld
  length := by rw [h]; rfl
  process i _ hlt := by
    rw [h] at hlt
    exact absurd hlt (Nat.not_lt_zero i)
  omitted i p _ hp := by
    rw [System.process?, h] at hp
    cases hp

theorem exists_process?_right (h : D.Projects kept g s s') {i : Nat} {p : π} (hi : kept i = true)
    (hp : s.process? i = some p) :
    ∃ p', s'.process? (rank kept i) = some p' ∧ D.process g p p' := by
  have hrel := h.process i hi (System.lt_length_of_process? hp)
  rw [hp] at hrel
  generalize s'.process? (rank kept i) = p'? at hrel
  cases hrel with
  | some hrel => exact ⟨_, rfl, hrel⟩

/-- Whoever runs in the part runs in the system. -/
theorem exists_process?_left (h : D.Projects kept g s s') {i' : Nat} {p' : π}
    (hp' : s'.process? i' = some p') :
    ∃ i p, kept i = true ∧ s.process? i = some p ∧ D.process g p p' := by
  have hlt := System.lt_length_of_process? hp'
  rw [h.length] at hlt
  obtain ⟨i, hi, hkept, rfl⟩ := exists_rank_eq hlt
  have hrel := h.process i hkept hi
  rw [hp'] at hrel
  generalize hp : s.process? i = p? at hrel
  cases hrel with
  | some hrel => exact ⟨i, _, hkept, hp, hrel⟩

/-- A process of the part that stays as it is. -/
theorem mono [Preorder Γ] (hD : D.Sound turn) (h : D.Projects kept g s s') (hg : g ≤ g')
    {i : Nat} (hi : kept i = true) (hlt : i < s.processes.length) :
    Option.Rel (D.process g') (s.process? i) (s'.process? (rank kept i)) := by
  have hrel := h.process i hi hlt
  generalize s.process? i = p?, s'.process? (rank kept i) = p?' at hrel
  cases hrel with
  | none => exact .none
  | some hp => exact .some (hD.mono hg hp)

/-- The turn of a process that is kept. -/
theorem advance [Preorder Γ] (hD : D.Sound turn) (h : D.Projects kept g s s') (hg : g ≤ g')
    {i : Nat} (hi : kept i = true) {w w' : σ} (hw : D.world g' s.now w w')
    {next? next?' : Option π} (hnext : Option.Rel (D.process g') next? next?')
    {started started' : List π} (hstarted : List.Forall₂ (D.process g') started started')
    (hkept : ∀ j < started.length, kept (s.processes.length + j) = true) :
    D.Projects kept g' (s.advance i w next? started)
      (s'.advance (rank kept i) w' next?' started') where
  now := h.now
  world := hw
  length := by
    rw [System.length_advance, System.length_advance, h.length, rank_add_of_kept hkept,
      hstarted.length_eq]
  process j hj hlt := by
    rw [System.length_advance] at hlt
    by_cases hold : j < s.processes.length
    · have hold' : rank kept j < s'.processes.length := h.length ▸ rank_lt hj hold
      by_cases hij : j = i
      · subst hij
        rwa [System.process?_advance_self hold, System.process?_advance_self hold']
      · rw [System.process?_advance_of_ne hold hij,
          System.process?_advance_of_ne hold' fun heq => hij (rank_inj hj hi heq)]
        exact h.mono hD hg hj hold
    · obtain ⟨m, rfl⟩ := Nat.exists_eq_add_of_le (Nat.le_of_not_lt hold)
      have hm : m < started.length := by omega
      have hm' : m < started'.length := hstarted.length_eq ▸ hm
      rw [rank_add_of_kept fun k hk => hkept k (Nat.lt_trans hk hm), ← h.length,
        System.process?_advance_started, System.process?_advance_started,
        List.getElem?_eq_getElem hm, List.getElem?_eq_getElem hm']
      exact .some (hstarted.get hm hm')
  omitted j p hj hp := by
    obtain ⟨-, hp⟩ | ⟨rfl, -⟩ | ⟨m, rfl, hm⟩ := System.process?_advance_cases hp
    · exact h.omitted j p hj hp
    · cases hi.symm.trans hj
    · cases (hkept m (List.getElem?_eq_some_iff.mp hm).1).symm.trans hj

/-- The turn of a process that is left out. -/
theorem advance_omitted (h : D.Projects kept g s s') {i : Nat} (hi : kept i = false) {w : σ}
    (hw : D.world g s.now w s'.world) {next? : Option π} (hnext : ∀ p, next? = some p → D.omitted p)
    {started : List π} (hstarted : ∀ p ∈ started, D.omitted p)
    (hkept : ∀ j < started.length, kept (s.processes.length + j) = false) :
    D.Projects kept g (s.advance i w next? started) s' where
  now := h.now
  world := hw
  length := by rw [System.length_advance, rank_add_of_omitted hkept, h.length]
  process j hj hlt := by
    rw [System.length_advance] at hlt
    have hold : j < s.processes.length := by
      refine Nat.lt_of_not_le fun hle => ?_
      obtain ⟨m, rfl⟩ := Nat.exists_eq_add_of_le hle
      cases (hkept m (by omega)).symm.trans hj
    have hij : j ≠ i := by
      rintro rfl
      cases hi.symm.trans hj
    rw [System.process?_advance_of_ne hold hij]
    exact h.process j hj hold
  omitted j p hj hp := by
    obtain ⟨-, hp⟩ | ⟨-, hp⟩ | ⟨m, -, hp⟩ := System.process?_advance_cases hp
    · exact h.omitted j p hj hp
    · exact hnext p hp
    · exact hstarted p (List.mem_of_getElem? hp)

/-- A process that is kept starts. -/
theorem add (h : D.Projects kept g s s') {p : π} (hp : D.process g p p)
    (hkept : kept s.processes.length = true) : D.Projects kept g (s.add p) (s'.add p) where
  now := h.now
  world := h.world
  length := by
    have hrank : rank kept (s.processes.length + 1) = rank kept s.processes.length + 1 := by
      refine rank_add_of_kept fun j hj => ?_
      cases Nat.lt_one_iff.mp hj
      exact hkept
    simp only [System.add, List.length_append, List.length_singleton]
    rw [hrank, h.length]
  process j hj hlt := by
    by_cases hold : j < s.processes.length
    · have hold' : rank kept j < s'.processes.length := h.length ▸ rank_lt hj hold
      rw [System.process?_add_of_lt hold, System.process?_add_of_lt hold']
      exact h.process j hj hold
    · have hlast : j = s.processes.length := by
        simp only [System.add, List.length_append, List.length_singleton] at hlt
        omega
      subst hlast
      rw [← h.length, System.process?_add_self, System.process?_add_self]
      exact .some hp
  omitted j q hj hq := by
    obtain hq | ⟨rfl, -⟩ := System.process?_add_cases hq
    · exact h.omitted j q hj hq
    · cases hkept.symm.trans hj

/-- A process that is left out starts. -/
theorem add_omitted (h : D.Projects kept g s s') {p : π} (hp : D.omitted p)
    (hkept : kept s.processes.length = false) : D.Projects kept g (s.add p) s' where
  now := h.now
  world := h.world
  length := by
    have hrank : rank kept (s.processes.length + 1) = rank kept s.processes.length := by
      refine rank_add_of_omitted fun j hj => ?_
      cases Nat.lt_one_iff.mp hj
      exact hkept
    simp only [System.add, List.length_append, List.length_singleton]
    rw [hrank, h.length]
  process j hj hlt := by
    have hold : j < s.processes.length := by
      refine Nat.lt_of_not_le fun hle => ?_
      simp only [System.add, List.length_append, List.length_singleton] at hlt
      have hlast : j = s.processes.length := by omega
      subst hlast
      cases hkept.symm.trans hj
    rw [System.process?_add_of_lt hold]
    exact h.process j hj hold
  omitted j q hj hq := by
    obtain hq | ⟨-, rfl⟩ := System.process?_add_cases hq
    · exact h.omitted j q hj hq
    · exact hp

theorem passTo [Preorder Γ] (hD : D.Sound turn) (h : D.Projects kept g s s') {t : Instant}
    (hle : s.now ≤ t) : D.Projects kept g (s.passTo t) (s'.passTo t) where
  now := rfl
  world := hD.later hle h.world
  length := h.length
  process := h.process
  omitted := h.omitted

/-- Time passes promptly in the part as well. -/
theorem waits [Preorder Γ] (hD : D.Sound turn) (h : D.Projects kept g s s') {t : Instant}
    (hwait : ∀ p ∈ s.running, WaitsUntil turn s t p) :
    ∀ p ∈ s'.running, WaitsUntil turn s' t p := by
  intro p' hp'
  obtain ⟨i', hi'⟩ := System.exists_process?_of_mem_running hp'
  obtain ⟨i, p, -, hp, hrel⟩ := h.exists_process?_left hi'
  obtain ⟨g', -, hmatch⟩ := hD.matched h.world hrel
  have hwaits := hwait p (System.mem_running hp)
  unfold WaitsUntil at hwaits ⊢
  rw [h.now]
  generalize turn s.now s.world p = a, turn s.now s'.world p' = b at hmatch hwaits
  cases hmatch with
  | waits => exact hwaits
  | moves | ends => exact hwaits

end Projects

/-! ## Runs without the others -/

variable {schedule : Schedule} {s s' t : System σ π} {c c' : Choice π}

theorem of_project_turn {i : Nat} (h : (Choice.turn i).project D.keeps kept = some c') :
    kept i = true ∧ c' = .turn (rank kept i) := by
  obtain ⟨hi, hc⟩ := Option.ite_none_right_eq_some.mp h
  cases hc
  exact ⟨hi, rfl⟩

variable [Preorder Γ]

/-- A step that is kept. -/
theorem Sound.step (hD : D.Sound turn) (h : D.Projects kept g s s')
    (hrule : schedule.admitting turn D.admits s c t) (hstep : Step turn s c t)
    (hsettles : Settles D.keeps kept s.processes.length (s.joins turn c))
    (hc : c.project D.keeps kept = some c') :
    ∃ g' t', g ≤ g' ∧ Step turn s' c' t' ∧ schedule.admitting turn D.admits s' c' t' ∧
      D.Projects kept g' t t' ∧
      s'.ending? turn c' = (s.ending? turn c).bind (Ending.project kept) := by
  cases hstep with
  | @moves i p w next records hp hturn =>
    obtain ⟨hi, rfl⟩ := of_project_turn hc
    obtain ⟨p', hp', hrel⟩ := h.exists_process?_right hi hp
    obtain ⟨g', hg, hmatch⟩ := hD.matched h.world hrel
    rw [hturn, ← h.now] at hmatch
    generalize hturn' : turn s'.now s'.world p' = a at hmatch
    cases hmatch with
    | moves hw hnext =>
      refine ⟨g', _, hg, .moves hp' hturn', ⟨Schedule.rule_turn, nofun⟩,
        h.advance hD hg hi (h.now ▸ hw) (.some hnext) .nil nofun, ?_⟩
      rw [System.ending?_of_moves hp hturn, System.ending?_of_moves hp' hturn']
      rfl
  | @ends i p w a started records hp hturn =>
    obtain ⟨hi, rfl⟩ := of_project_turn hc
    obtain ⟨p', hp', hrel⟩ := h.exists_process?_right hi hp
    obtain ⟨g', hg, hmatch⟩ := hD.matched h.world hrel
    rw [System.joins_of_ends hp hturn] at hsettles
    rw [hturn, ← h.now] at hmatch
    generalize hturn' : turn s'.now s'.world p' = b at hmatch
    cases hmatch with
    | ends hw hstarted hkeeps =>
      refine ⟨g', _, hg, .ends hp' hturn', ⟨Schedule.rule_turn, nofun⟩,
        h.advance hD hg hi (h.now ▸ hw) .none hstarted (hsettles.of_forall hkeeps), ?_⟩
      rw [System.ending?_of_ends hp hturn, System.ending?_of_ends hp' hturn', h.now]
      exact (if_pos hi).symm
  | start p =>
    obtain ⟨hkeeps, hc⟩ := Option.ite_none_right_eq_some.mp hc
    cases hc
    obtain ⟨hadmits, hrel⟩ := hD.admitted h.world (hrule.2 p rfl) hkeeps
    have hkept : kept s.processes.length = true := (hsettles 0 p rfl).trans hkeeps
    refine ⟨g, _, le_rfl, .start s' p, ⟨Schedule.rule_start, ?_⟩, h.add hrel hkept, rfl⟩
    rintro _ ⟨⟩
    exact hadmits
  | @pass u hle =>
    cases hc
    refine ⟨g, _, le_rfl, .pass (h.now ▸ hle), ⟨?_, nofun⟩, h.passTo hD hle, rfl⟩
    cases schedule with
    | any => trivial
    | prompt => exact h.waits hD hrule.1

/-- A step that is left out. -/
theorem Sound.step_omitted (hD : D.Sound turn) (h : D.Projects kept g s s')
    (hrule : schedule.admitting turn D.admits s c t) (hstep : Step turn s c t)
    (hsettles : Settles D.keeps kept s.processes.length (s.joins turn c))
    (hc : c.project D.keeps kept = none) :
    D.Projects kept g t s' ∧ (s.ending? turn c).bind (Ending.project kept) = none := by
  cases hstep with
  | @moves i p w next records hp hturn =>
    have hi : kept i = false := by simpa [Choice.project] using hc
    have hpasses := hD.passed h.world (h.omitted i p hi hp)
    rw [hturn] at hpasses
    refine ⟨h.advance_omitted hi hpasses.1 ?_ (List.forall_mem_nil _)
      fun _ hj => absurd hj (Nat.not_lt_zero _), ?_⟩
    · rintro _ ⟨⟩
      exact hpasses.2
    · rw [System.ending?_of_moves hp hturn]
      rfl
  | @ends i p w a started records hp hturn =>
    have hi : kept i = false := by simpa [Choice.project] using hc
    have hpasses := hD.passed h.world (h.omitted i p hi hp)
    rw [hturn] at hpasses
    rw [System.joins_of_ends hp hturn] at hsettles
    refine ⟨h.advance_omitted hi hpasses.1 (by rintro _ ⟨⟩) (fun q hq => (hpasses.2 q hq).1)
      (hsettles.of_forall fun q hq => (hpasses.2 q hq).2), ?_⟩
    rw [System.ending?_of_ends hp hturn]
    simp [Ending.project, hi]
  | start p =>
    have hkeeps : D.keeps p = false := by simpa [Choice.project] using hc
    have hkept : kept s.processes.length = false := (hsettles 0 p rfl).trans hkeeps
    exact ⟨h.add_omitted (hD.left h.world (hrule.2 p rfl) hkeeps) hkept, rfl⟩
  | pass => cases hc

/-- A history without the processes that are left out is a history.  The kept ones end
as they did. -/
theorem Sound.history {cs : List (Choice π)} {es : List (Ending ρ)} (hD : D.Sound turn)
    (h : D.Projects kept g s s')
    (hrun : History turn (schedule.admitting turn D.admits) s cs es t)
    (hsettles : Settles D.keeps kept s.processes.length (s.joined turn cs)) :
    ∃ g' t', g ≤ g' ∧
      History turn (schedule.admitting turn D.admits) s' (cs.filterMap (·.project D.keeps kept))
        (es.filterMap (·.project kept)) t' ∧
      D.Projects kept g' t t' := by
  induction hrun generalizing g s' with
  | nil => exact ⟨g, s', le_rfl, .nil, h⟩
  | @cons s c t cs es u hstep hrule _ ih =>
    rw [hstep.joined_cons, settles_append, ← hstep.length_eq] at hsettles
    cases hc : c.project D.keeps kept with
    | none =>
      obtain ⟨ht, hending⟩ := hD.step_omitted h hrule hstep hsettles.1 hc
      obtain ⟨g', t', hg, hrun', hu⟩ := ih ht hsettles.2
      have hnone : (s.ending? turn c).toList.filterMap (Ending.project kept) = [] := by
        cases he : s.ending? turn c with
        | none => rfl
        | some e =>
          rw [he] at hending
          exact List.filterMap_cons_none hending
      rw [List.filterMap_cons_none hc, List.filterMap_append, hnone, List.nil_append]
      exact ⟨g', t', hg, hrun', hu⟩
    | some c' =>
      obtain ⟨g₁, s₁, hg₁, hstep', hrule', hs₁, hending⟩ :=
        hD.step h hrule hstep hsettles.1 hc
      obtain ⟨g', t', hg, hrun', hu⟩ := ih hs₁ hsettles.2
      have hsome : (s.ending? turn c).toList.filterMap (Ending.project kept) =
          (s'.ending? turn c').toList := by
        rw [hending]
        cases s.ending? turn c with
        | none => rfl
        | some e => cases he : e.project kept <;> simp [he]
      rw [List.filterMap_cons_some hc, List.filterMap_append, hsome]
      exact ⟨g', t', hg₁.trans hg, .cons hstep' hrule' hrun', hu⟩

/-- Whatever a history passes through, the history without the others passes through
a part of it. -/
theorem Sound.passing {cs cs' : List (Choice π)} {es es' : List (Ending ρ)} {u : System σ π}
    (hD : D.Sound turn) (h : D.Projects kept g s s')
    (hrun : History turn (schedule.admitting turn D.admits) s cs es u)
    (hrun' : History turn (schedule.admitting turn D.admits) u cs' es' t)
    (hsettles : Settles D.keeps kept s.processes.length (s.joined turn (cs ++ cs'))) :
    ∃ g' u' t',
      History turn (schedule.admitting turn D.admits) s' (cs.filterMap (·.project D.keeps kept))
        (es.filterMap (·.project kept)) u' ∧
      History turn (schedule.admitting turn D.admits) u' (cs'.filterMap (·.project D.keeps kept))
        (es'.filterMap (·.project kept)) t' ∧
      D.Projects kept g' u u' := by
  rw [hrun.joined_append, settles_append, ← hrun.length_eq] at hsettles
  obtain ⟨g', u', -, hfirst, hu⟩ := hD.history h hrun hsettles.1
  obtain ⟨-, t', -, hrest, -⟩ := hD.history hu hrun' hsettles.2
  exact ⟨g', u', t', hfirst, hrest, hu⟩

end Parting

end Leasehold.Simulation
