import Leasehold.Proofs.Simulation.Chronicle
import Leasehold.Proofs.Simulation.Progress

/-!
# One process, and everybody else

A `Post` is a single process with the world it shares with others and the time.  A
`Watch` follows it: the process has turns, and in between others may change the world,
as far as a relation lets them, and time may pass as long as the process waits.  What
the process does on its turns is written down.

A watch knows nothing of the others but what they leave behind, so what holds of every
watch holds whoever they are.  The process of a number in a system that runs promptly
is watched (`Watch.of_chronicle`).

Time can always go on (`Watch.exists_reached`), and a process that has a turn in every
world that others may leave ends at the instant at which it is (`Watch.endsNow`).
-/

namespace Leasehold.Simulation

variable {α σ π ρ : Type}

/-- A process, what it shares with others, and the time. -/
structure Post (σ π : Type) where
  /-- The time. -/
  now : Instant
  /-- What is shared. -/
  world : σ
  /-- The process, if it is not over. -/
  process? : Option π

/-- What becomes of a process and its world, and what was written down of it.  Others
may change the world as `others` says. -/
inductive Watch (turn : Behaviour σ π ρ) (others : Post σ π → σ → Prop)
    (note : Instant → σ → π → List α) : Post σ π → List α → Post σ π → Prop where
  | refl {x} : Watch turn others note x [] x
  | moves {x l t w p w' q records} :
      Watch turn others note x l ⟨t, w, some p⟩ → turn t w p = .moves w' q records →
      Watch turn others note x (l ++ note t w p) ⟨t, w', some q⟩
  | ends {x l t w p w' r started records} :
      Watch turn others note x l ⟨t, w, some p⟩ → turn t w p = .ends w' r started records →
      Watch turn others note x (l ++ note t w p) ⟨t, w', none⟩
  | changes {x l t w p? w'} :
      Watch turn others note x l ⟨t, w, p?⟩ → others ⟨t, w, p?⟩ w' →
      Watch turn others note x l ⟨t, w', p?⟩
  | passes {x l t w p? t'} :
      Watch turn others note x l ⟨t, w, p?⟩ → t ≤ t' →
      (∀ p, p? = some p → WaitsUntil turn ⟨t, w, []⟩ t' p) →
      Watch turn others note x l ⟨t', w, p?⟩

namespace Watch

variable {turn : Behaviour σ π ρ} {others : Post σ π → σ → Prop}
  {note : Instant → σ → π → List α} {x y z : Post σ π} {l l' : List α}

theorem trans (h : Watch turn others note x l y) (h' : Watch turn others note y l' z) :
    Watch turn others note x (l ++ l') z := by
  induction h' with
  | refl => rwa [List.append_nil]
  | moves _ hturn ih =>
    rw [← List.append_assoc]
    exact ih.moves hturn
  | ends _ hturn ih =>
    rw [← List.append_assoc]
    exact ih.ends hturn
  | changes _ hothers ih => exact ih.changes hothers
  | passes _ hle hwaits ih => exact ih.passes hle hwaits

/-- What the turns of the process, the changes of others and the lapse of time preserve
holds all along a watch. -/
theorem preserves {I : List α → Post σ π → Prop}
    (moves : ∀ {l t w p w' q records}, I l ⟨t, w, some p⟩ →
      turn t w p = .moves w' q records → I (l ++ note t w p) ⟨t, w', some q⟩)
    (ends : ∀ {l t w p w' r started records}, I l ⟨t, w, some p⟩ →
      turn t w p = .ends w' r started records → I (l ++ note t w p) ⟨t, w', none⟩)
    (changes : ∀ {l t w p? w'}, I l ⟨t, w, p?⟩ → others ⟨t, w, p?⟩ w' → I l ⟨t, w', p?⟩)
    (passes : ∀ {l t w p? t'}, I l ⟨t, w, p?⟩ → t ≤ t' →
      (∀ p, p? = some p → WaitsUntil turn ⟨t, w, []⟩ t' p) → I l ⟨t', w, p?⟩)
    (h : Watch turn others note x l y) (hI : I [] x) : I l y := by
  induction h with
  | refl => exact hI
  | moves _ hturn ih => exact moves ih hturn
  | ends _ hturn ih => exact ends ih hturn
  | changes _ hothers ih => exact changes ih hothers
  | passes _ hle hwaits ih => exact passes ih hle hwaits

/-- A process that waits for an instant gets there. -/
theorem waits {t u : Instant} {w : σ} {p : π} (h : Watch turn others note x l ⟨t, w, some p⟩)
    (hle : t ≤ u) (hwaits : t < u → turn t w p = .waits (some u)) :
    Watch turn others note x l ⟨u, w, some p⟩ := by
  rcases Nat.eq_or_lt_of_le hle with heq | hlt
  · cases Instant.ext heq
    exact h
  · refine h.passes hle ?_
    rintro _ ⟨⟩
    show WaitsUntil turn ⟨t, w, []⟩ u p
    unfold WaitsUntil
    rw [hwaits hlt]
    exact Nat.le_refl u.nanos

/-! ## How a watch goes on -/

section

variable (others note) {I : Post σ π → Prop} {effort : Instant → π → Nat}
  (hlowers : ∀ {t w p}, I ⟨t, w, some p⟩ → Lowers t (effort t p) (effort t) (turn t w p))
  (hmoves : ∀ {t w p w' q records}, I ⟨t, w, some p⟩ → turn t w p = .moves w' q records →
    I ⟨t, w', some q⟩)
  (hpasses : ∀ {t w p t'}, I ⟨t, w, some p⟩ → t ≤ t' → WaitsUntil turn ⟨t, w, []⟩ t' p →
    I ⟨t', w, some p⟩)

include hlowers hmoves

/-- Left to itself, a process ends, or it waits for an instant to come. -/
theorem exists_waits {t : Instant} {w : σ} {p : π} (hI : I ⟨t, w, some p⟩) :
    ∃ l y, Watch turn others note ⟨t, w, some p⟩ l y ∧ (y.process? = none ∨
      ∃ w' q due?, y = ⟨t, w', some q⟩ ∧ I y ∧ turn t w' q = .waits due? ∧
        ∀ due, due? = some due → t < due) := by
  generalize hn : effort t p = n
  induction n using Nat.strongRecOn generalizing w p with
  | ind n ih =>
    have hturn := hlowers hI
    rw [hn] at hturn
    cases hcase : turn t w p with
    | waits due? =>
      rw [hcase] at hturn
      exact ⟨[], _, .refl, .inr ⟨w, p, due?, rfl, hI, hcase, hturn⟩⟩
    | moves w' q records =>
      rw [hcase] at hturn
      obtain ⟨l, y, hrest, hend⟩ := ih _ hturn (hmoves hI hcase) rfl
      exact ⟨_, y, (Watch.refl.moves hcase).trans hrest, hend⟩
    | ends w' r started records => exact ⟨_, _, Watch.refl.ends hcase, .inl rfl⟩

include hpasses

/-- Left to itself, a process ends, or time goes on to any instant. -/
theorem exists_reached {t : Instant} {w : σ} {p : π} (hI : I ⟨t, w, some p⟩) (u : Instant) :
    ∃ l y, Watch turn others note ⟨t, w, some p⟩ l y ∧ (y.process? = none ∨ u ≤ y.now) := by
  generalize hn : u.nanos - t.nanos = n
  induction n generalizing t w p with
  | zero =>
    refine ⟨[], _, .refl, .inr ?_⟩
    show u.nanos ≤ t.nanos
    omega
  | succ n ih =>
    obtain ⟨l, y, hwatch, hover | ⟨w', q, due?, rfl, hI', hwaits, hfuture⟩⟩ :=
      exists_waits others note hlowers hmoves hI
    · exact ⟨l, y, hwatch, .inl hover⟩
    have hlimit : t.nanos + 1 < 9223372036854775808000000000 := by
      have := u.nanos_lt
      omega
    have hle : t ≤ ⟨t.nanos + 1, hlimit⟩ := Nat.le_succ _
    have huntil : WaitsUntil turn ⟨t, w', []⟩ ⟨t.nanos + 1, hlimit⟩ q := by
      unfold WaitsUntil
      rw [hwaits]
      cases due? with
      | none => trivial
      | some due => exact hfuture due rfl
    have hpassed := hwatch.passes hle (by rintro _ ⟨⟩; exact huntil)
    obtain ⟨l', z, hrest, hend⟩ := ih (hpasses hI' hle huntil) (by dsimp only; omega)
    exact ⟨_, z, hpassed.trans hrest, hend⟩

end

/-! ## Processes that do not wait -/

/-- The turn of a process that goes on without a note, or ends with the given ones. -/
def Closes (D : σ → π → Prop) (l : List α) (notes : List α) : Turn σ π ρ → Prop
  | .waits _ => False
  | .moves w q _ => notes = [] ∧ D w q
  | .ends .. => notes = l

/-- A process is over before time passes, and leaves the given notes.  Until then it
leaves none, and it can always end. -/
def EndsNow (turn : Behaviour σ π ρ) (others : Post σ π → σ → Prop)
    (note : Instant → σ → π → List α) (x : Post σ π) (l : List α) : Prop :=
  ∀ l' y, Watch turn others note x l' y →
    (y.process? = none → l' = l) ∧
      (y.process? ≠ none → l' = [] ∧ y.now = x.now ∧
        ∃ z, Watch turn others note y l z ∧ z.process? = none)

section

variable {D : σ → π → Prop} {t : Instant} {w : σ} {p : π}
  (hturn : ∀ {w p}, D w p → Closes D l' (note t w p) (turn t w p))
  (hothers : ∀ {w p w'}, D w p → others ⟨t, w, some p⟩ w' → D w' p)

include hturn hothers

/-- A process that does not wait until it ends leaves the notes of its end, and
nothing before. -/
theorem closes (hD : D w p) (h : Watch turn others note ⟨t, w, some p⟩ l y) :
    (y.process? = none → l = l') ∧
      (y.process? ≠ none → l = [] ∧ y.now = t ∧ ∀ q, y.process? = some q → D y.world q) := by
  refine h.preserves (I := fun l y => (y.process? = none → l = l') ∧
    (y.process? ≠ none → l = [] ∧ y.now = t ∧ ∀ q, y.process? = some q → D y.world q))
    ?_ ?_ ?_ ?_ ?_
  · rintro l t₁ w₁ p₁ w' q records ⟨-, hrun⟩ hmoves
    obtain ⟨rfl, rfl, hall⟩ := hrun nofun
    have hcloses := hturn (hall p₁ rfl)
    rw [hmoves] at hcloses
    refine ⟨nofun, fun _ => ⟨hcloses.1, rfl, ?_⟩⟩
    rintro _ ⟨⟩
    exact hcloses.2
  · rintro l t₁ w₁ p₁ w' r started records ⟨-, hrun⟩ hends
    obtain ⟨rfl, rfl, hall⟩ := hrun nofun
    have hcloses := hturn (hall p₁ rfl)
    rw [hends] at hcloses
    exact ⟨fun _ => hcloses, fun hne => absurd rfl hne⟩
  · intro l t₁ w₁ p? w' ⟨hover, hrun⟩ hchange
    refine ⟨hover, fun hne => ?_⟩
    obtain ⟨hnil, rfl, hall⟩ := hrun hne
    refine ⟨hnil, rfl, ?_⟩
    rintro q rfl
    exact hothers (hall q rfl) hchange
  · intro l t₁ w₁ p? t' ⟨hover, hrun⟩ hle hwaits
    refine ⟨hover, fun hne => ?_⟩
    obtain ⟨hnil, rfl, hall⟩ := hrun hne
    obtain ⟨q, rfl⟩ := Option.ne_none_iff_exists'.mp hne
    -- A process that waits has no turn.
    have hcloses := hturn (hall q rfl)
    obtain ⟨due?, hturn', -⟩ := (hwaits q rfl).exists_due
    rw [hturn'] at hcloses
    exact hcloses.elim
  · refine ⟨nofun, fun _ => ⟨rfl, rfl, ?_⟩⟩
    rintro _ ⟨⟩
    exact hD

theorem endsNow (effort : Instant → π → Nat)
    (hlowers : ∀ {w p}, D w p → Lowers t (effort t p) (effort t) (turn t w p)) (hD : D w p) :
    EndsNow turn others note ⟨t, w, some p⟩ l' := by
  intro l y hwatch
  refine (closes hturn hothers hD hwatch).imp_right fun hrun hne => ?_
  obtain ⟨hnil, hnow, hall⟩ := hrun hne
  refine ⟨hnil, hnow, ?_⟩
  obtain ⟨t', w', p?⟩ := y
  obtain ⟨q, rfl⟩ := Option.ne_none_iff_exists'.mp hne
  obtain rfl : t' = t := hnow
  have hmoves : ∀ {u w p w' q records}, (u = t' ∧ D w p) → turn u w p = .moves w' q records →
      u = t' ∧ D w' q := by
    rintro u w p w' q records ⟨rfl, hD⟩ hmoves
    have hcloses := hturn hD
    rw [hmoves] at hcloses
    exact ⟨rfl, hcloses.2⟩
  obtain ⟨l₁, z, hrest, hover | ⟨w₁, q₁, due?, rfl, hI, hwaits, -⟩⟩ :=
    exists_waits others note (I := fun y => ∀ q, y.process? = some q → y.now = t' ∧ D y.world q)
      (fun hI => by obtain ⟨rfl, hD⟩ := hI _ rfl; exact hlowers hD)
      (fun hI hturn => by rintro _ ⟨⟩; exact hmoves (hI _ rfl) hturn)
      (fun q hq => ⟨rfl, hall q hq⟩)
  · obtain rfl := (closes hturn hothers (hall q rfl) hrest).1 hover
    exact ⟨z, hrest, hover⟩
  · have hcloses := hturn (hI q₁ rfl).2
    rw [hwaits] at hcloses
    exact hcloses.elim

end

end Watch

/-! ## Processes of systems -/

namespace System

variable {s : System σ π} {i : Nat} {p : π}

/-- The process of a number, with the world and the time of its system. -/
def post (s : System σ π) (i : Nat) : Post σ π := ⟨s.now, s.world, s.process? i⟩

/-- What is written down of the turns of the process of a number. -/
def noteOf (note : Instant → σ → π → List α) (i : Nat) (s : System σ π) : Choice π → List α
  | .turn j => if j = i then ((s.process? i).map (note s.now s.world)).getD [] else []
  | .start _ | .pass _ => []

theorem post_of_process? (h : s.process? i = some p) : s.post i = ⟨s.now, s.world, some p⟩ := by
  rw [post, h]

theorem post_advance_self (h : s.process? i = some p) (w : σ) (q? : Option π) (l : List π) :
    (s.advance i w q? l).post i = ⟨s.now, w, q?⟩ := by
  rw [post, process?_advance_self (lt_length_of_process? h)]
  rfl

theorem noteOf_turn {note : Instant → σ → π → List α} (h : s.process? i = some p) :
    s.noteOf note i (.turn i) = note s.now s.world p := by
  rw [noteOf, if_pos rfl, h]
  rfl

theorem noteOf_of_not_turn (note : Instant → σ → π → List α) {c : Choice π} (h : ¬ c.IsTurn i) :
    s.noteOf note i c = [] := by
  cases c with
  | turn j => exact if_neg h
  | start | pass => rfl

end System

section

variable {turn : Behaviour σ π ρ} {others : Post σ π → σ → Prop} {rule : Rule σ π}
  {note : Instant → σ → π → List α} {s s' : System σ π} {c : Choice π} {i : Nat} {l : List α}

/-- A step of a system, as it is seen from the process of a number. -/
theorem Step.watch (h : Step turn s c s') (note : Instant → σ → π → List α)
    (hlt : i < s.processes.length) (hprompt : Prompt turn s c s')
    (hothers : ¬ c.IsTurn i → others (s.post i) s'.world) :
    Watch turn others note (s.post i) (s.noteOf note i c) (s'.post i) := by
  by_cases hc : c.IsTurn i
  · cases h with
    | start | pass => cases hc
    | moves hp hturn =>
      cases hc
      rw [System.post_of_process? hp, System.post_advance_self hp, System.noteOf_turn hp]
      exact Watch.refl.moves hturn
    | ends hp hturn =>
      cases hc
      rw [System.post_of_process? hp, System.post_advance_self hp, System.noteOf_turn hp]
      exact Watch.refl.ends hturn
  · have hworld := hothers hc
    have hprocess := h.process?_of_not_turn hc hlt
    rw [System.noteOf_of_not_turn note hc, System.post, System.post, hprocess]
    cases h with
    | moves | ends | start => exact Watch.refl.changes hworld
    | pass hle =>
      exact Watch.refl.passes hle fun p hp => hprompt p (System.mem_running hp)

/-- A process of a system that runs promptly is watched. -/
theorem Watch.of_chronicle (hprompt : ∀ {s c s'}, rule s c s' → Prompt turn s c s')
    (hothers : ∀ {s c s'}, Step turn s c s' → rule s c s' → ¬ c.IsTurn i →
      others (s.post i) s'.world)
    (h : Chronicle turn rule (System.noteOf note i) s l s') (hlt : i < s.processes.length) :
    Watch turn others note (s.post i) l (s'.post i) := by
  induction h with
  | nil => exact .refl
  | cons hstep hrule _ ih =>
    have hfirst := hstep.watch note hlt (hprompt hrule) (hothers hstep hrule)
    exact hfirst.trans (ih (Nat.lt_of_lt_of_le hlt hstep.length_le))

end

end Leasehold.Simulation
