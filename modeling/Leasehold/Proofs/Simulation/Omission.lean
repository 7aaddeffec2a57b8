import Leasehold.Proofs.Simulation.History
import Leasehold.Proofs.Simulation.Tally

/-!
# Leaving a process out

Two runs side by side: one is the other without the process of one number.  The
worlds are related at every instant, and all other processes are the same.  If no
process can tell related worlds apart, and the turns of the omitted one keep the
worlds related, then leaving it out of a history leaves a history, with the same
endings of all others (`Omits.history`).

Results may tell of what differs, so they are compared through a `view`.
-/

namespace Leasehold.Simulation

variable {σ σ' π π' ρ ρ' : Type}

/-- Two turns that do the same in related worlds. -/
inductive Turn.Alike (R : σ → σ → Prop) (view : ρ → ρ) : Turn σ π ρ → Turn σ π ρ → Prop where
  | waits {due?} : Alike R view (.waits due?) (.waits due?)
  | moves {w w' p records} : R w w' → Alike R view (.moves w p records) (.moves w' p records)
  | ends {w w' a a' started records} :
      R w w' → view a = view a' →
      Alike R view (.ends w a started records) (.ends w' a' started records)

namespace Turn.Alike

variable {R : σ → σ → Prop} {R' : σ' → σ' → Prop} {view : ρ → ρ} {view' : ρ' → ρ'}

theorem refl (hR : ∀ w, R w w) (t : Turn σ π ρ) : Alike R view t t := by
  cases t with
  | waits => exact .waits
  | moves w => exact .moves (hR w)
  | ends w => exact .ends (hR w) rfl

theorem after {t t' : Turn σ π ρ} (h : Alike R view t t') (records : List Log.Record) :
    Alike R view (t.after records) (t'.after records) := by
  cases h with
  | waits => exact .waits
  | moves hw => exact .moves hw
  | ends hw ha => exact .ends hw ha

theorem within {t t' : Turn σ π ρ} (h : Alike R view t t') {f f' : σ → σ'} {next : π → π'}
    {done : σ' → ρ → Turn σ' π' ρ'} (hworld : ∀ {w w'}, R w w' → R' (f w) (f' w'))
    (hdone : ∀ {w w' a a'}, R w w' → view a = view a' →
      Alike R' view' (done (f w) a) (done (f' w') a')) :
    Alike R' view' (t.within f next done) (t'.within f' next done) := by
  cases h with
  | waits => exact .waits
  | moves hw => exact .moves (hworld hw)
  | ends hw ha => exact (hdone hw ha).after _

end Turn.Alike

/-- What the turn of a process that is to be left out may do: its next world is
related to whatever the last one was related to, unless its result counts. -/
def Turn.Omissible (R : σ → σ → Prop) (Own : π → Prop) (counts : ρ → Prop) (w' : σ) :
    Turn σ π ρ → Prop
  | .waits _ => True
  | .moves w p _ => R w w' ∧ Own p
  | .ends w a started _ => counts a ∨ R w w' ∧ started = []

/-! ## Numbers without one of them -/

/-- A number when `n` is left out. -/
def renumber (n i : Nat) : Nat := if i < n then i else i - 1

/-- A choice when the process of a number is left out. -/
def Choice.without (n : Nat) : Choice π → Option (Choice π)
  | .turn i => if i = n then none else some (.turn (renumber n i))
  | .start p => some (.start p)
  | .pass t => some (.pass t)

/-- An ending when the process of another number is left out. -/
def Ending.without (n : Nat) (view : ρ → ρ) (e : Ending ρ) : Ending ρ :=
  ⟨renumber n e.number, view e.result, e.instant⟩

/-- An ending as it can be seen. -/
def Ending.seen (view : ρ → ρ) (e : Ending ρ) : Ending ρ := { e with result := view e.result }

theorem getElem?_eraseIdx_renumber {α : Type} (l : List α) {n i : Nat} (h : i ≠ n) :
    (l.eraseIdx n)[renumber n i]? = l[i]? := by
  rw [List.getElem?_eraseIdx, renumber]
  by_cases hlt : i < n
  · rw [if_pos hlt, if_pos hlt]
  · have hsucc : i - 1 + 1 = i := by omega
    rw [if_neg hlt, if_neg (by omega), hsucc]

theorem eraseIdx_set_renumber {α : Type} (l : List α) {n i : Nat} (h : i ≠ n) (a : α) :
    (l.set i a).eraseIdx n = (l.eraseIdx n).set (renumber n i) a := by
  rw [renumber]
  split
  next hlt => exact List.eraseIdx_set_gt hlt
  next hge => exact List.eraseIdx_set_lt (by omega)

/-! ## Two runs -/

/-- Which schedules are considered: any, or those that keep to the clock. -/
inductive Schedule where
  | any
  | prompt

/-- The rule of a schedule. -/
def Schedule.rule (turn : Behaviour σ π ρ) : Schedule → Rule σ π
  | any => fun _ _ _ => True
  | prompt => Prompt turn

instance (turn : Behaviour σ π ρ) (schedule : Schedule) (s t : System σ π) (c : Choice π) :
    Decidable (schedule.rule turn s c t) :=
  match schedule with
  | .any => inferInstanceAs (Decidable True)
  | .prompt => inferInstanceAs (Decidable (Prompt turn s c t))

theorem Schedule.rule_turn {turn : Behaviour σ π ρ} {schedule : Schedule} {s t : System σ π}
    {i : Nat} : schedule.rule turn s (.turn i) t := by
  cases schedule with
  | any | prompt => trivial

theorem Schedule.rule_start {turn : Behaviour σ π ρ} {schedule : Schedule} {s t : System σ π}
    {p : π} : schedule.rule turn s (.start p) t := by
  cases schedule with
  | any | prompt => trivial

/-- A system without the process of a number, in a related world. -/
structure Omits (R : Instant → σ → σ → Prop) (Own : π → Prop) (n : Nat) (s s' : System σ π) :
    Prop where
  now : s'.now = s.now
  world : R s.now s.world s'.world
  processes : s'.processes = s.processes.eraseIdx n
  lt : n < s.processes.length
  own : ∀ p, s.process? n = some p → Own p

/-- No process can tell related worlds apart. -/
structure Indistinct (turn : Behaviour σ π ρ) (R : Instant → σ → σ → Prop) (view : ρ → ρ) :
    Prop where
  alike : ∀ {now w w'} p, R now w w' → Turn.Alike (R now) view (turn now w p) (turn now w' p)
  later : ∀ {now t w w'}, now ≤ t → R now w w' → R t w w'

/-- The same world is no other. -/
theorem indistinct_eq (turn : Behaviour σ π ρ) (view : ρ → ρ) :
    Indistinct turn (fun _ => Eq) view where
  alike := by
    rintro now w _ p rfl
    exact .refl (fun _ => rfl) _
  later _ h := h

/-- Nor do the turns of the omitted process make a difference, until it ends with a
result that counts. -/
structure Unnoticed (turn : Behaviour σ π ρ) (R : Instant → σ → σ → Prop) (Own : π → Prop)
    (view : ρ → ρ) (counts : ρ → Prop) : Prop extends Indistinct turn R view where
  own : ∀ {now w w' p}, Own p → R now w w' →
    Turn.Omissible (R now) Own counts w' (turn now w p)

namespace Omits

variable {turn : Behaviour σ π ρ} {R : Instant → σ → σ → Prop} {Own : π → Prop} {view : ρ → ρ}
  {counts : ρ → Prop} {n : Nat} {s s' t : System σ π} {c c' : Choice π}

theorem process? (h : Omits R Own n s s') {i : Nat} (hi : i ≠ n) :
    s'.process? (renumber n i) = s.process? i := by
  rw [System.process?, h.processes, getElem?_eraseIdx_renumber _ hi, System.process?]

/-- A system when one process is added. -/
theorem of_add {p : π} (hp : Own p) (hworld : R s.now s.world s.world) :
    Omits R Own s.processes.length (s.add p) s where
  now := rfl
  world := hworld
  processes := by simp [System.add, List.eraseIdx_append_of_length_le]
  lt := by simp [System.add]
  own q hq := by
    rw [System.process?_add_self] at hq
    cases hq
    exact hp

theorem imp {R' : Instant → σ → σ → Prop} {Own' : π → Prop} (h : Omits R Own n s s')
    (hworld : ∀ {now w w'}, R now w w' → R' now w w') (hown : ∀ p, Own p → Own' p) :
    Omits R' Own' n s s' :=
  ⟨h.now, hworld h.world, h.processes, h.lt, fun p hp => hown p (h.own p hp)⟩

/-- The turn of another process can be had without the omitted one. -/
theorem advance (h : Omits R Own n s s') {i : Nat} (hi : i ≠ n) {w w' : σ} (hw : R s.now w w')
    (next? : Option π) (started : List π) :
    Omits R Own n (s.advance i w next? started)
      (s'.advance (renumber n i) w' next? started) where
  now := h.now
  world := hw
  processes := by
    have hlt : n < (s.processes.set i next?).length := by
      rw [List.length_set]
      exact h.lt
    rw [System.advance, System.advance, h.processes, List.eraseIdx_append_of_lt_length hlt,
      eraseIdx_set_renumber _ hi]
  lt := by
    rw [System.length_advance]
    exact Nat.lt_of_lt_of_le h.lt (Nat.le_add_right _ _)
  own p hp := h.own p (by rwa [System.process?_advance_of_ne h.lt hi.symm] at hp)

/-- A turn of the omitted process, after which anything else may relate the worlds. -/
theorem advance_own (h : Omits R Own n s s') {R' : Instant → σ → σ → Prop} {Own' : π → Prop}
    {w w' : σ} (hw : R' s.now w w') {next? : Option π} (hown : ∀ p, next? = some p → Own' p) :
    Omits R' Own' n (s.advance n w next? []) { s' with world := w' } where
  now := h.now
  world := hw
  processes := by simp [System.advance, h.processes, List.eraseIdx_set_eq]
  lt := by
    rw [System.length_advance]
    exact h.lt
  own p hp := by
    rw [System.process?_advance_self h.lt] at hp
    exact hown p hp

theorem step_own (h : Omits R Own n s s') (hu : Unnoticed turn R Own view counts)
    (hstep : Step turn s (.turn n) t)
    (hcounts : ∀ e, s.ending? turn (.turn n) = some e → ¬ counts e.result) :
    Omits R Own n t s' := by
  cases hstep with
  | @moves _ p w next records hp hturn =>
    have hown := hu.own (h.own p hp) h.world
    rw [hturn] at hown
    refine h.advance_own hown.1 ?_
    rintro _ ⟨⟩
    exact hown.2
  | @ends _ p w a started records hp hturn =>
    have hown := hu.own (h.own p hp) h.world
    rw [hturn] at hown
    obtain ⟨hw, rfl⟩ := hown.resolve_left (hcounts _ (System.ending?_of_ends hp hturn))
    exact h.advance_own hw nofun

theorem of_without_eq_none (h : c.without n = none) : c = .turn n := by
  cases c with
  | turn i =>
    simp only [Choice.without] at h
    split at h
    next hi => rw [hi]
    · cases h
  | start | pass => cases h

theorem of_without_turn {i : Nat} (h : (Choice.turn i : Choice π).without n = some c') :
    i ≠ n ∧ c' = .turn (renumber n i) := by
  simp only [Choice.without] at h
  split at h
  · cases h
  next hi => cases h; exact ⟨hi, rfl⟩

theorem waitsUntil (h : Omits R Own n s s') (hi : Indistinct turn R view) {u : Instant}
    {p : π} (hwaits : WaitsUntil turn s u p) : WaitsUntil turn s' u p := by
  have halike := hi.alike p h.world
  unfold WaitsUntil at hwaits ⊢
  rw [h.now]
  generalize turn s.now s.world p = a, turn s.now s'.world p = b at halike hwaits
  cases halike with
  | waits => exact hwaits
  | moves | ends => exact hwaits

/-- A step of another process can be had without the omitted one. -/
theorem step_other (h : Omits R Own n s s') (hindistinct : Indistinct turn R view)
    {schedule : Schedule} (hrule : schedule.rule turn s c t) (hstep : Step turn s c t)
    (hc : c.without n = some c') :
    ∃ t', Step turn s' c' t' ∧ schedule.rule turn s' c' t' ∧ Omits R Own n t t' ∧
      (s'.ending? turn c').toList.map (·.seen view) =
        (s.ending? turn c).toList.map (·.without n view) := by
  cases hstep with
  | @moves i p w next records hp hturn =>
    obtain ⟨hi, rfl⟩ := of_without_turn hc
    have halike := hindistinct.alike p h.world
    rw [hturn] at halike
    cases hturn' : turn s.now s'.world p with
    | waits | ends => rw [hturn'] at halike; cases halike
    | moves w' next' records' =>
      rw [hturn'] at halike
      cases halike with
      | moves hw =>
        have hp' := (h.process? hi).trans hp
        rw [← h.now] at hturn'
        refine ⟨_, .moves hp' hturn', Schedule.rule_turn, h.advance hi hw _ _, ?_⟩
        rw [System.ending?_of_moves hp hturn, System.ending?_of_moves hp' hturn']
        rfl
  | @ends i p w a started records hp hturn =>
    obtain ⟨hi, rfl⟩ := of_without_turn hc
    have halike := hindistinct.alike p h.world
    rw [hturn] at halike
    cases hturn' : turn s.now s'.world p with
    | waits | moves => rw [hturn'] at halike; cases halike
    | ends w' a' started' records' =>
      rw [hturn'] at halike
      cases halike with
      | ends hw ha =>
        have hp' := (h.process? hi).trans hp
        rw [← h.now] at hturn'
        refine ⟨_, .ends hp' hturn', Schedule.rule_turn, h.advance hi hw _ _, ?_⟩
        rw [System.ending?_of_ends hp hturn, System.ending?_of_ends hp' hturn']
        simp [Ending.seen, Ending.without, ha, h.now]
  | start p =>
    cases hc
    refine ⟨_, .start s' p, Schedule.rule_start, ⟨h.now, h.world, ?_, ?_, ?_⟩, rfl⟩
    · rw [System.add, System.add, h.processes, List.eraseIdx_append_of_lt_length h.lt]
    · have hstart : Step turn s (.start p) (s.add p) := .start s p
      exact Nat.lt_of_lt_of_le h.lt hstart.length_le
    · intro q hq
      exact h.own q (by rwa [System.process?_add_of_lt h.lt] at hq)
  | @pass u hle =>
    cases hc
    have hle' : s'.now ≤ u := h.now ▸ hle
    have hlater : Omits R Own n (s.passTo u) (s'.passTo u) :=
      ⟨rfl, hindistinct.later hle h.world, h.processes, h.lt, h.own⟩
    refine ⟨_, .pass hle', ?_, hlater, rfl⟩
    cases schedule with
    | any => trivial
    | prompt =>
      intro p hp
      have hmem : p ∈ s.running := by
        obtain ⟨p?, hp, hid⟩ := List.mem_filterMap.mp hp
        rw [h.processes] at hp
        exact List.mem_filterMap.mpr ⟨p?, List.mem_of_mem_eraseIdx hp, hid⟩
      exact h.waitsUntil hindistinct (hrule p hmem)

/-- Without the endings of the omitted process those of its turns are gone. -/
theorem filter_ending_own (s : System σ π) (es : List (Ending ρ)) :
    ((s.ending? turn (.turn n)).toList ++ es).filter (·.number ≠ n) =
      es.filter (·.number ≠ n) := by
  have hnone : (s.ending? turn (.turn n)).toList.filter (·.number ≠ n) = [] := by
    rw [List.filter_eq_nil_iff]
    intro e he
    cases System.eq_turn_of_ending? (Option.mem_toList.mp he)
    simp
  rw [List.filter_append, hnone, List.nil_append]

theorem filter_ending_other (hc : c.without n = some c') (es : List (Ending ρ)) :
    ((s.ending? turn c).toList ++ es).filter (·.number ≠ n) =
      (s.ending? turn c).toList ++ es.filter (·.number ≠ n) := by
  have hall : (s.ending? turn c).toList.filter (·.number ≠ n) = (s.ending? turn c).toList := by
    rw [List.filter_eq_self]
    intro e he
    cases System.eq_turn_of_ending? (Option.mem_toList.mp he)
    exact decide_eq_true (of_without_turn hc).1
  rw [List.filter_append, hall]

/-- Leaving the process out of a history leaves a history.  All others end as they
did, as far as can be seen. -/
theorem history {schedule : Schedule} {cs : List (Choice π)} {es : List (Ending ρ)}
    (hu : Unnoticed turn R Own view counts) (h : Omits R Own n s s')
    (hrun : History turn (schedule.rule turn) s cs es t)
    (hcounts : ∀ e ∈ es, e.number = n → ¬ counts e.result) :
    ∃ es' t', History turn (schedule.rule turn) s' (cs.filterMap (·.without n)) es' t' ∧
      Omits R Own n t t' ∧
      es'.map (·.seen view) = (es.filter (·.number ≠ n)).map (·.without n view) := by
  induction hrun generalizing s' with
  | nil => exact ⟨[], s', .nil, h, rfl⟩
  | @cons s c t cs es u hstep hrule _ ih =>
    have hrest : ∀ e ∈ es, e.number = n → ¬ counts e.result := fun e he =>
      hcounts e (List.mem_append_right _ he)
    cases hc : c.without n with
    | none =>
      obtain rfl := of_without_eq_none hc
      have hown := h.step_own hu hstep fun e he =>
        hcounts e (List.mem_append_left _ (Option.mem_toList.mpr he)) (by
          cases System.eq_turn_of_ending? he
          rfl)
      obtain ⟨es', t', hrun', ht', hes'⟩ := ih hown hrest
      rw [List.filterMap_cons_none hc]
      exact ⟨es', t', hrun', ht', by rw [hes', filter_ending_own]⟩
    | some c' =>
      obtain ⟨s₁, hstep', hrule', hs₁, hending⟩ := h.step_other hu.toIndistinct hrule hstep hc
      obtain ⟨es', t', hrun', ht', hes'⟩ := ih hs₁ hrest
      rw [List.filterMap_cons_some hc]
      refine ⟨_, t', .cons hstep' hrule' hrun', ht', ?_⟩
      rw [List.map_append, hending, hes', filter_ending_other hc, List.map_append]

end Omits

end Leasehold.Simulation
