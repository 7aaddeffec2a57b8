import Leasehold.Proofs.Lock.Runs

/-!
# Which renewals are registered

A renewal that has not been cancelled is registered for its key, under its own
token and generation, until it is over.  So of all the renewals that one lock
manager ever started for a key, at most one is not cancelled, and an acquisition
by the same lock manager cancels all earlier ones (`RegistrySound`).

The other way round, an entry is there exactly as long as the renewal it was made
for is not over, unless the key is won again or its owner releases it
(`registered_iff`).  A renewal that ends takes its own entry away and no other,
however late it ends (`Retired.registered_iff`).

All this holds for every store and whatever is done to it.  Runs begin where
nothing is registered (`Blank`), and users do what they like at lock managers that
exist (`Addressed`).  The main theorem puts everything together.
-/

namespace Leasehold.Lock

open Simulation

/-! ## The registry knows the renewals that are not cancelled -/

/-- What is registered was started, what runs and is not cancelled is registered,
and the renewals of a lock manager have different generations. -/
structure RegistrySound (s : Locks) : Prop where
  entry : ∀ i k e, s.world.registered? i k = some e →
    e.token < s.world.tokens.nodes.length ∧ e.generation < (s.world.manager i).nextGeneration
  registered : ∀ n r stage, s.process? n = some (.renewing r stage) →
    s.world.tokens.isCancelled r.token = false →
    ∃ owner, s.world.registered? r.manager r.key = some ⟨owner, r.token, r.generation⟩
  distinct : ∀ m n q r stage stage', s.process? m = some (.renewing q stage) →
    s.process? n = some (.renewing r stage') → q.manager = r.manager →
    q.generation = r.generation → m = n

/-- A system in which nothing is registered and nothing is under way. -/
structure Blank (s : Locks) : Prop where
  registered : ∀ i k, s.world.registered? i k = none
  processes : s.processes = []

variable {s s' : Locks} {c : Choice Process}

theorem Fresh.blank (h : Fresh s) : Blank s := ⟨h.registered, h.processes⟩

theorem Blank.process?_eq_none (h : Blank s) (n : Nat) : s.process? n = none := by
  rw [System.process?, h.processes]
  rfl

theorem Blank.placed (h : Blank s) : Placed s := by
  intro n p hp
  rw [h.process?_eq_none] at hp
  cases hp

theorem Blank.registrySound (h : Blank s) : RegistrySound s := by
  refine ⟨fun i k e he => ?_, fun n r stage hp => ?_, fun m n q r stage stage' hp => ?_⟩
  · rw [h.registered] at he
    cases he
  · rw [h.process?_eq_none] at hp
    cases hp
  · rw [h.process?_eq_none] at hp
    cases hp

/-- The renewal of a win has a generation that no renewal had before. -/
theorem Wins.generation_lt {i : Nat} {l : Lease} {r : Renewing} (h : Wins s i l r s')
    (hs : Placed s) {n : Nat} {q : Renewing} {stage : RenewalStage}
    (hq : s.process? n = some (.renewing q stage)) (hmanager : q.manager = r.manager) :
    q.generation < r.generation := by
  obtain ⟨p, bid, service, w, -, -, -, hheld, -⟩ := h.held hs
  have hlt := Renewing.Placed.generation (hs _ _ hq)
  rw [hheld.renewal] at hmanager ⊢
  rw [hmanager] at hlt
  exact hlt

theorem Wins.registered {i : Nat} {l : Lease} {r : Renewing} (h : Wins s i l r s')
    (hs : Placed s) :
    s'.world.registered? r.manager r.key = some ⟨l.owner, r.token, r.generation⟩ := by
  obtain ⟨p, bid, service, w, -, -, -, hheld, rfl⟩ := h.held hs
  have hregistered := hheld.registered
  rw [hheld.lease]
  rw [hheld.renewal] at hregistered ⊢
  exact hregistered

/-- An entry after a step was there before, or the step is the win that makes it. -/
theorem Placed.registered_cases (hs : Placed s) (hstep : Step turn s c s') {i : Nat} {k : String}
    {e : Renewal} (he : s'.world.registered? i k = some e) :
    s.world.registered? i k = some e ∨ ∃ n l r, c = .turn n ∧ Wins s n l r s' ∧
      r.manager = i ∧ r.key = k ∧ e = ⟨l.owner, r.token, r.generation⟩ := by
  cases hs.touching hstep with
  | start | pass => exact .inl he
  | touch hp htouch hwins =>
    refine (htouch.registered_cases he).imp_right ?_
    rintro ⟨l, r, hlease, hstarted, hmanager, hkey, hentry⟩
    exact ⟨_, l, r, rfl, hwins l r hlease hstarted, hmanager, hkey, hentry⟩

/-- A renewal whose entry stays goes on. -/
theorem Placed.goes_on_of_kept (hs : Placed s) {n : Nat} {r : Renewing} {stage : RenewalStage}
    (hn : s.process? n = some (.renewing r stage)) (hstep : Step turn s c s') {e : Renewal}
    (he : s'.world.registered? r.manager r.key = some e)
    (hgeneration : e.generation = r.generation) :
    ∃ stage', s'.process? n = some (.renewing r stage') := by
  have hlt := System.lt_length_of_process? hn
  cases hs.touching hstep with
  | start p => exact ⟨stage, (System.process?_add_of_lt hlt p).trans hn⟩
  | pass => exact ⟨stage, hn⟩
  | @touch i p w' next? started lease? hp htouch =>
    by_cases hi : n = i
    case neg => exact ⟨stage, (System.process?_advance_of_ne hlt hi _ _ _).trans hn⟩
    subst hi
    cases hn.symm.trans hp
    rw [System.process?_advance_self hlt]
    cases next? with
    | some q =>
      obtain ⟨stage', rfl⟩ := Process.eq_renewing (htouch.renewal?_next rfl)
      exact ⟨stage', rfl⟩
    | none =>
      -- A renewal that ends takes its entry away.
      have hgone := htouch.retired_of_renewing.registered
      rw [System.world_advance, hgone, Option.filter_eq_some_iff] at he
      exact absurd hgeneration (by simpa using he.2)

/-- A step keeps an uncancelled renewal that goes on registered. -/
theorem RegistrySound.registered_step (hr : RegistrySound s) (hs : Placed s)
    (hstep : Step turn s c s') {n : Nat} {r : Renewing} {stage stage' : RenewalStage} {e : Renewal}
    (hbefore : s.process? n = some (.renewing r stage))
    (hafter : s'.process? n = some (.renewing r stage')) (htoken : e.token = r.token)
    (hgeneration : e.generation = r.generation)
    (hregistered : s.world.registered? r.manager r.key = some e)
    (huncancelled : s'.world.tokens.isCancelled r.token = false) :
    s'.world.registered? r.manager r.key = some e := by
  cases hs.touching hstep with
  | start p => exact hregistered
  | pass => exact hregistered
  | @touch i p w' next? started lease? hp htouch =>
    have hlt := (hr.entry _ _ _ hregistered).1
    obtain hkept | hcancelled | ⟨q, stage₀, rfl, rfl, hmanager, hsame⟩ :=
      htouch.registered_kept hregistered hlt
    · exact hkept
    · rw [htoken] at hcancelled
      rw [System.world_advance, hcancelled] at huncancelled
      cases huncancelled
    · have hi : i = n := hr.distinct i n q r _ _ hp hbefore hmanager (hsame.trans hgeneration)
      subst hi
      rw [System.process?_advance_self (System.lt_length_of_process? hp)] at hafter
      cases hafter

theorem RegistrySound.step (hr : RegistrySound s) (hs : Placed s) (hstep : Step turn s c s')
    (hstart : ∀ p, c = .start p → p.renewal? = none) : RegistrySound s' := by
  have hgrows := hs.grows hstep
  refine ⟨fun i k e he => ?_, fun n r stage hp huncancelled => ?_,
    fun m n q r stage stage' hq hr' hmanager hgeneration => ?_⟩
  · obtain hold | ⟨n, l, r, rfl, hwins, rfl, rfl, rfl⟩ := hs.registered_cases hstep he
    · obtain ⟨htoken, hgeneration⟩ := hr.entry i k e hold
      exact ⟨Nat.lt_of_lt_of_le htoken hgrows.tokens.length,
        Nat.lt_of_lt_of_le hgeneration (hgrows.generation i)⟩
    · have hplaced : r.Placed s'.world := hs.step hstep (by rintro _ ⟨⟩) _ _ hwins.process?
      exact ⟨hplaced.token, hplaced.generation⟩
  · obtain ⟨stage₀, hbefore⟩ | ⟨-, i, l, -, hwins⟩ := hs.renewal_cases hstep hstart hp
    · have hwas : s.world.tokens.isCancelled r.token = false := Bool.eq_false_iff.mpr fun h =>
        Bool.eq_false_iff.mp huncancelled (hgrows.tokens.cancelled _ h)
      obtain ⟨owner, hregistered⟩ := hr.registered n r stage₀ hbefore hwas
      exact ⟨owner, hr.registered_step hs hstep hbefore hp rfl rfl hregistered huncancelled⟩
    · exact ⟨_, hwins.registered hs⟩
  · obtain ⟨_, hq⟩ | ⟨hm, _, _, -, hwins⟩ := hs.renewal_cases hstep hstart hq
    · obtain ⟨_, hr'⟩ | ⟨-, _, _, -, hwins⟩ := hs.renewal_cases hstep hstart hr'
      · exact hr.distinct m n q r _ _ hq hr' hmanager hgeneration
      · exact absurd hgeneration (Nat.ne_of_lt (hwins.generation_lt hs hq hmanager))
    · obtain ⟨_, hr'⟩ | ⟨hn, -⟩ := hs.renewal_cases hstep hstart hr'
      · exact absurd hgeneration.symm (Nat.ne_of_lt (hwins.generation_lt hs hr' hmanager.symm))
      · rw [hm, hn]

/-! ## Runs -/

/-- Users start actions only, and those at lock managers that exist. -/
def Addressed : Rule World Process := fun s c _ =>
  match c with
  | .start (.action a) => a.Placed s.world
  | .start (.later _ a) => a.Placed s.world
  | .start _ => False
  | .turn _ => True
  | .pass _ => True

instance (w : World) (a : Action) : Decidable (a.Placed w) :=
  match a with
  | .acquire manager .. | .acquireDefault manager .. | .tryAcquire manager ..
  | .release manager .. => inferInstanceAs (Decidable (manager < w.managers.length))
  | .cancel _ | .child .. | .config _ | .store _ => inferInstanceAs (Decidable True)

instance (s s' : Locks) (c : Choice Process) : Decidable (Addressed s c s') :=
  match c with
  | .start (.action a) | .start (.later _ a) => inferInstanceAs (Decidable (a.Placed s.world))
  | .start (.attempting ..) | .start (.asking ..) | .start (.resting ..) | .start (.trying ..)
  | .start (.releasing ..) | .start (.renewing ..) | .start (.store _) =>
      inferInstanceAs (Decidable False)
  | .turn _ | .pass _ => inferInstanceAs (Decidable True)

theorem Addressed.placed (h : Addressed s c s') : ∀ p, c = .start p → p.Placed s.world := by
  rintro p rfl
  cases p with
  | action | later => exact h
  | attempting | asking | resting | trying | releasing | renewing | store => cases h

theorem Addressed.renewal? (h : Addressed s c s') : ∀ p, c = .start p → p.renewal? = none := by
  rintro p rfl
  cases p with
  | action | later => rfl
  | attempting | asking | resting | trying | releasing | renewing | store => cases h

/-- Systems that runs reach. -/
structure Registered (s : Locks) : Prop where
  placed : Placed s
  sound : RegistrySound s

theorem Registered.step (h : Registered s) (hstep : Step turn s c s') (hrule : Addressed s c s') :
    Registered s' :=
  ⟨h.placed.step hstep hrule.placed, h.sound.step h.placed hstep hrule.renewal?⟩

theorem Registered.run (h : Registered s) (hrun : Run turn Addressed s s') : Registered s' :=
  hrun.preserves (fun h hstep hrule => h.step hstep hrule) h

theorem Blank.registered_of_run (h : Blank s) (hrun : Run turn Addressed s s') : Registered s' :=
  Registered.run ⟨h.placed, h.registrySound⟩ hrun

/-! ## Renewals and the wins that started them -/

variable {n : Nat} {l : Lease} {r : Renewing} {rule : Rule World Process} {s₀ s₁ s₂ : Locks}

/-- A run in which a win starts a renewal under a number, and which goes on under
a rule after it. -/
def StartedFor (rule : Rule World Process) (s₀ s : Locks) (n : Nat) (l : Lease) (r : Renewing) :
    Prop :=
  ∃ s₁ i s₂, Run turn Addressed s₀ s₁ ∧ Wins s₁ i l r s₂ ∧ s₁.processes.length = n ∧
    Run turn rule s₂ s

theorem StartedFor.step (h : StartedFor rule s₀ s n l r) (hstep : Step turn s c s')
    (hrule : rule s c s') : StartedFor rule s₀ s' n l r := by
  obtain ⟨s₁, i, s₂, hbefore, hwins, hn, hafter⟩ := h
  exact ⟨s₁, i, s₂, hbefore, hwins, hn, .tail hafter hstep hrule⟩

theorem StartedFor.mono {rule' : Rule World Process} (h : StartedFor rule s₀ s n l r)
    (himp : ∀ {t c t'}, rule t c t' → rule' t c t') : StartedFor rule' s₀ s n l r := by
  obtain ⟨s₁, i, s₂, hbefore, hwins, hn, hafter⟩ := h
  exact ⟨s₁, i, s₂, hbefore, hwins, hn, hafter.mono himp⟩

/-- Every renewal was started by a win. -/
theorem started_of_run (h : Blank s₀) (hrun : Run turn Addressed s₀ s) {stage : RenewalStage}
    (hn : s.process? n = some (.renewing r stage)) :
    ∃ l, StartedFor Addressed s₀ s n l r := by
  induction hrun generalizing stage with
  | refl =>
    rw [h.process?_eq_none] at hn
    cases hn
  | tail hrun hstep hrule ih =>
    have hs := (h.registered_of_run hrun).placed
    obtain ⟨stage₀, hold⟩ | ⟨hlength, i, l, rfl, hwins⟩ :=
      hs.renewal_cases hstep hrule.renewal? hn
    · obtain ⟨l, hstarted⟩ := ih hold
      exact ⟨l, hstarted.step hstep hrule⟩
    · exact ⟨l, _, i, _, hrun, hwins, hlength.symm, .refl⟩

/-- A renewal that was started before a step is the same renewal before it. -/
theorem Registered.renewal_before (h : Registered s) (hstep : Step turn s c s')
    (hrule : Addressed s c s') (hlt : n < s.processes.length) {stage : RenewalStage}
    (hn : s'.process? n = some (.renewing r stage)) :
    ∃ stage₀, s.process? n = some (.renewing r stage₀) := by
  obtain hold | ⟨hlength, -⟩ := h.placed.renewal_cases hstep hrule.renewal? hn
  · exact hold
  · exact absurd hlength (Nat.ne_of_lt hlt)

/-- A renewal that goes on uncancelled is registered for the owner of its lease. -/
theorem Wins.registered_of_run {i : Nat} (hwins : Wins s₁ i l r s₂) (h : Registered s₁)
    (hrun : Run turn Addressed s₂ s) {stage : RenewalStage}
    (hn : s.process? s₁.processes.length = some (.renewing r stage))
    (huncancelled : s.world.tokens.isCancelled r.token = false) :
    s.world.registered? r.manager r.key = some ⟨l.owner, r.token, r.generation⟩ := by
  have hlt := System.lt_length_of_process? hwins.process?
  have h₂ : Registered s₂ := h.step hwins.step trivial
  induction hrun generalizing stage with
  | refl => exact hwins.registered h.placed
  | @tail t c t' hrun hstep hrule ih =>
    have ht := h₂.run hrun
    obtain ⟨stage₀, hbefore⟩ :=
      ht.renewal_before hstep hrule (Nat.lt_of_lt_of_le hlt hrun.length_le) hn
    have hwas : t.world.tokens.isCancelled r.token = false := Bool.eq_false_iff.mpr fun hcancelled =>
      Bool.eq_false_iff.mp huncancelled ((ht.placed.grows hstep).tokens.cancelled _ hcancelled)
    exact ht.sound.registered_step ht.placed hstep hbefore hn rfl rfl (ih hbefore hwas)
      huncancelled

/-! ## What becomes of an entry -/

/-- Nobody wins a key at a lock manager, and nobody releases it there for an owner. -/
def Undisturbed (i : Nat) (k owner : String) : Rule World Process := fun s c s' =>
  Addressed s c s' ∧ ∀ n, c = .turn n →
    s.process? n ≠ some (.action (.release i k owner)) ∧
      ∀ l r, Wins s n l r s' → ¬ (r.manager = i ∧ r.key = k)

/-- The turn of a release that begins. -/
theorem Placed.stopped (hs : Placed s) {i : Nat} {k owner : String}
    (hn : s.process? n = some (.action (.release i k owner))) (hstep : Step turn s (.turn n) s') :
    Stopped s.world i k owner s'.world := by
  rw [hstep.eq_of_moves hn rfl]
  exact stopped_stop (hs _ _ hn) k owner

/-- An entry stays as long as its renewal goes on undisturbed. -/
theorem Registered.undisturbed_step (h : Registered s) {e : Renewal}
    (hgeneration : e.generation = r.generation) {stage stage' : RenewalStage}
    (hn : s.process? n = some (.renewing r stage)) (hn' : s'.process? n = some (.renewing r stage'))
    (hregistered : s.world.registered? r.manager r.key = some e) (hstep : Step turn s c s')
    (hrule : Undisturbed r.manager r.key e.owner s c s') :
    s'.world.registered? r.manager r.key = some e := by
  cases h.placed.touching hstep with
  | start p => exact hregistered
  | pass => exact hregistered
  | @touch i p w' next? started lease? hp htouch hwins =>
    obtain ⟨hunreleased, hunwon⟩ := hrule.2 i rfl
    cases htouch with
    | calm hmanagers =>
      exact (World.registered?_of_managers_eq hmanagers r.manager r.key).trans hregistered
    | @won _ bid service l q w' hbid hheld =>
      have hother := hunwon l q (hwins l q rfl rfl)
      rw [hheld.renewal, Decidable.not_and_iff_or_not] at hother
      exact (hheld.others _ _ (hother.imp Ne.symm Ne.symm)).trans hregistered
    | @released manager key owner w' e₀ hstopped =>
      rw [System.world_advance]
      by_cases hsame : r.manager = manager ∧ r.key = key
      · obtain ⟨rfl, rfl⟩ := hsame
        have howner : e.owner ≠ owner := by
          rintro rfl
          exact hunreleased hp
        rw [hstopped.registered, hregistered, Option.filter_some, if_pos (by simpa using howner)]
      · exact (hstopped.others _ _ (Decidable.not_and_iff_or_not.mp hsame)).trans hregistered
    | @retired q stage₀ w' hretired =>
      obtain hkept | ⟨hmanager, hsame⟩ := hretired.kept hregistered
      · exact hkept
      · have hi := h.sound.distinct i n q r _ _ hp hn hmanager (hsame.trans hgeneration)
        subst hi
        rw [System.process?_advance_self (System.lt_length_of_process? hp)] at hn'
        cases hn'

/-- An entry that stays was not disturbed. -/
theorem Registered.undisturbed_of_kept (h : Registered s) {owner : String} {stage : RenewalStage}
    (hn : s.process? n = some (.renewing r stage)) (hstep : Step turn s c s')
    (hrule : Addressed s c s')
    (hregistered : s'.world.registered? r.manager r.key = some ⟨owner, r.token, r.generation⟩) :
    Undisturbed r.manager r.key owner s c s' := by
  refine ⟨hrule, ?_⟩
  rintro m rfl
  refine ⟨fun hrelease => ?_, ?_⟩
  · have hstopped := (h.placed.stopped hrelease hstep).registered
    rw [hregistered, eq_comm, Option.filter_eq_some_iff] at hstopped
    simp at hstopped
  · rintro l q hwins ⟨hmanager, hkey⟩
    have hnew := hwins.registered h.placed
    rw [hmanager, hkey, hregistered, Option.some.injEq, Renewal.mk.injEq] at hnew
    exact absurd hnew.2.2 (Nat.ne_of_lt (hwins.generation_lt h.placed hn hmanager.symm))

/-- An entry is there exactly as long as the renewal it was made for goes on
undisturbed. -/
theorem registered_iff (h : Blank s₀) (hrun : Run turn Addressed s₀ s) {i : Nat} {k : String}
    {e : Renewal} :
    s.world.registered? i k = some e ↔
      ∃ n l r stage, StartedFor (Undisturbed i k l.owner) s₀ s n l r ∧
        s.process? n = some (.renewing r stage) ∧ r.manager = i ∧ r.key = k ∧
        e = ⟨l.owner, r.token, r.generation⟩ := by
  constructor
  · intro he
    induction hrun with
    | refl =>
      rw [h.registered] at he
      cases he
    | @tail t c t' hrun hstep hrule ih =>
      have ht := h.registered_of_run hrun
      obtain hold | ⟨m, l, r, rfl, hwins, rfl, rfl, rfl⟩ := ht.placed.registered_cases hstep he
      · obtain ⟨n, l, r, stage, hstarted, hn, rfl, rfl, rfl⟩ := ih hold
        obtain ⟨stage', hn'⟩ := ht.placed.goes_on_of_kept hn hstep he rfl
        have hundisturbed := ht.undisturbed_of_kept hn hstep hrule he
        exact ⟨n, l, r, stage', hstarted.step hstep hundisturbed, hn', rfl, rfl, rfl⟩
      · exact ⟨_, l, r, .starting, ⟨t, m, t', hrun, hwins, rfl, .refl⟩, hwins.process?, rfl, rfl, rfl⟩
  · rintro ⟨n, l, r, stage, ⟨s₁, i, s₂, hbefore, hwins, rfl, hafter⟩, hn, rfl, rfl, rfl⟩
    have h₁ := h.registered_of_run hbefore
    have h₂ : Registered s₂ := h₁.step hwins.step trivial
    have hlt := System.lt_length_of_process? hwins.process?
    clear hrun
    induction hafter generalizing stage with
    | refl => exact hwins.registered h₁.placed
    | @tail t c t' hrun hstep hrule ih =>
      have hrun' : Run turn Addressed s₂ t := hrun.mono fun hrule => hrule.1
      have ht := h₂.run hrun'
      obtain ⟨stage₀, hold⟩ :=
        ht.renewal_before hstep hrule.1 (Nat.lt_of_lt_of_le hlt hrun.length_le) hn
      exact ht.undisturbed_step (e := ⟨_, _, _⟩) rfl hold hn (ih stage₀ hold) hstep hrule

/-! ## The end of a renewal -/

/-- A renewal that ends takes the entry of its generation away, and no other. -/
theorem Retired.registered_iff {w w' : World} (h : Retired w r w') {i : Nat} {k : String}
    {e : Renewal} :
    w'.registered? i k = some e ↔ w.registered? i k = some e ∧
      ¬ (i = r.manager ∧ k = r.key ∧ e.generation = r.generation) := by
  by_cases hown : i = r.manager ∧ k = r.key
  · obtain ⟨rfl, rfl⟩ := hown
    rw [h.registered, Option.filter_eq_some_iff]
    simp
  · rw [h.others i k (Decidable.not_and_iff_or_not.mp hown)]
    constructor
    · intro he
      exact ⟨he, fun ⟨hi, hk, _⟩ => hown ⟨hi, hk⟩⟩
    · exact And.left

/-- The entry of the generation of a renewal that goes on is its own. -/
theorem Registered.token_eq (h : Blank s₀) (hrun : Run turn Addressed s₀ s) {stage : RenewalStage}
    {k : String} {e : Renewal} (hn : s.process? n = some (.renewing r stage))
    (he : s.world.registered? r.manager k = some e) (hgeneration : e.generation = r.generation) :
    k = r.key ∧ e.token = r.token := by
  obtain ⟨m, l, q, stage', -, hm, hmanager, rfl, rfl⟩ := (registered_iff h hrun).mp he
  have hsame := (h.registered_of_run hrun).sound.distinct m n q r _ _ hm hn hmanager hgeneration
  subst hsame
  cases hm.symm.trans hn
  exact ⟨rfl, rfl⟩

/-- A turn in which a renewal ends. -/
theorem Placed.retired (hs : Placed s) {stage : RenewalStage}
    (hn : s.process? n = some (.renewing r stage)) (hstep : Step turn s (.turn n) s')
    (hend : s'.process? n = none) : Retired s.world r s'.world := by
  cases hs.touching hstep with
  | @touch i p w' next? started lease? hp htouch =>
    rw [System.process?_advance_self (System.lt_length_of_process? hn)] at hend
    subst hend
    cases hn.symm.trans hp
    exact htouch.retired_of_renewing

/-- A renewal that goes on after a run went on before it. -/
theorem Registered.renewal_before_run (h : Registered s₁) (hrun : Run turn Addressed s₁ s)
    (hlt : n < s₁.processes.length) {stage : RenewalStage}
    (hn : s.process? n = some (.renewing r stage)) :
    ∃ stage₁, s₁.process? n = some (.renewing r stage₁) := by
  induction hrun generalizing stage with
  | refl => exact ⟨stage, hn⟩
  | tail hrun hstep hrule ih =>
    obtain ⟨stage₀, hold⟩ :=
      (h.run hrun).renewal_before hstep hrule (Nat.lt_of_lt_of_le hlt hrun.length_le) hn
    exact ih hold

/-! ## The registry of a reachable system -/

/-- How the registries of a system that runs reach from `s₀` stand to the renewals
that were started. -/
structure Orderly (s₀ s : Locks) : Prop where
  /-- Every renewal was started by a win. -/
  started : ∀ n r stage, s.process? n = some (.renewing r stage) →
    ∃ l, StartedFor Addressed s₀ s n l r
  /-- Of the renewals of a key at a lock manager, at most one goes on uncancelled. -/
  alone : ∀ m n q r stage stage', s.process? m = some (.renewing q stage) →
    s.process? n = some (.renewing r stage') → q.manager = r.manager → q.key = r.key →
    s.world.tokens.isCancelled q.token = false → s.world.tokens.isCancelled r.token = false → m = n
  /-- It is registered for the key, with the owner it was started for and its generation. -/
  registered : ∀ n l r stage, StartedFor Addressed s₀ s n l r →
    s.process? n = some (.renewing r stage) → s.world.tokens.isCancelled r.token = false →
    s.world.registered? r.manager r.key = some ⟨l.owner, r.token, r.generation⟩
  /-- An entry is there as long as its renewal goes on, unless the key is won again
  or released. -/
  entry_iff : ∀ i k e, s.world.registered? i k = some e ↔
    ∃ n l r stage, StartedFor (Undisturbed i k l.owner) s₀ s n l r ∧
      s.process? n = some (.renewing r stage) ∧ r.manager = i ∧ r.key = k ∧
      e = ⟨l.owner, r.token, r.generation⟩
  /-- So a lock manager says that it renews a key just then. -/
  renewing_iff : ∀ i k, (s.world.manager i).renewing k = true ↔
    ∃ n l r stage, StartedFor (Undisturbed i k l.owner) s₀ s n l r ∧
      s.process? n = some (.renewing r stage) ∧ r.manager = i ∧ r.key = k
  /-- A renewal that ends takes its own entry away and leaves all others. -/
  ends : ∀ n r stage s', s.process? n = some (.renewing r stage) → Step turn s (.turn n) s' →
    s'.process? n = none → ∀ i k e, s'.world.registered? i k = some e ↔
      s.world.registered? i k = some e ∧
        ¬ (i = r.manager ∧ k = r.key ∧ e.token = r.token ∧ e.generation = r.generation)
  /-- The entry of a win that came after it was started stays, of whatever owner. -/
  newer : ∀ n r stage s', s.process? n = some (.renewing r stage) → Step turn s (.turn n) s' →
    s'.process? n = none → ∀ m l q, n < m → StartedFor Addressed s₀ s m l q →
      s.world.registered? q.manager q.key = some ⟨l.owner, q.token, q.generation⟩ →
      s'.world.registered? q.manager q.key = some ⟨l.owner, q.token, q.generation⟩

/-- The registries of lock managers are orderly in every system that is reached from
one in which nothing is registered, whoever acquires, releases and cancels what and
when, and whatever the store does. -/
theorem registry_orderly (h : Blank s₀) (hrun : Run turn Addressed s₀ s) : Orderly s₀ s := by
  have hs := h.registered_of_run hrun
  have hends : ∀ n r stage s', s.process? n = some (.renewing r stage) →
      Step turn s (.turn n) s' → s'.process? n = none → ∀ i k e,
      s'.world.registered? i k = some e ↔ s.world.registered? i k = some e ∧
        ¬ (i = r.manager ∧ k = r.key ∧ e.token = r.token ∧ e.generation = r.generation) := by
    intro n r stage s' hn hstep hend i k e
    rw [(hs.placed.retired hn hstep hend).registered_iff]
    refine and_congr_right fun he => not_congr ⟨?_, ?_⟩
    · rintro ⟨rfl, rfl, hgeneration⟩
      exact ⟨rfl, rfl, (Registered.token_eq h hrun hn he hgeneration).2, hgeneration⟩
    · rintro ⟨hi, hk, -, hgeneration⟩
      exact ⟨hi, hk, hgeneration⟩
  refine ⟨fun n r stage hn => started_of_run h hrun hn, ?_, ?_, fun i k e => registered_iff h hrun,
    fun i k => ?_, hends, ?_⟩
  · intro m n q r stage stage' hm hn hmanager hkey hq hr
    obtain ⟨owner, he⟩ := hs.sound.registered m q stage hm hq
    obtain ⟨owner', he'⟩ := hs.sound.registered n r stage' hn hr
    rw [hmanager, hkey, he', Option.some.injEq, Renewal.mk.injEq] at he
    exact hs.sound.distinct m n q r _ _ hm hn hmanager he.2.2.symm
  · rintro n l r stage ⟨s₁, i, s₂, hbefore, hwins, rfl, hafter⟩ hn huncancelled
    exact hwins.registered_of_run (h.registered_of_run hbefore) hafter hn huncancelled
  · rw [Manager.renewing, Table.contains, Option.isSome_iff_exists]
    constructor
    · rintro ⟨e, he⟩
      obtain ⟨n, l, r, stage, hstarted, hn, hmanager, hkey, -⟩ := (registered_iff h hrun).mp he
      exact ⟨n, l, r, stage, hstarted, hn, hmanager, hkey⟩
    · rintro ⟨n, l, r, stage, hstarted, hn, hmanager, hkey⟩
      exact ⟨_, (registered_iff h hrun).mpr ⟨n, l, r, stage, hstarted, hn, hmanager, hkey, rfl⟩⟩
  · rintro n r stage s' hn hstep hend m l q hlt ⟨s₁, i, s₂, hbefore, hwins, rfl, hafter⟩ he
    refine (hends n r stage s' hn hstep hend _ _ _).mpr ⟨he, ?_⟩
    rintro ⟨hmanager, -, -, hgeneration⟩
    have h₁ := h.registered_of_run hbefore
    have hfrom : Run turn Addressed s₁ s := .head hwins.step trivial hafter
    obtain ⟨stage₁, hn₁⟩ := h₁.renewal_before_run hfrom hlt hn
    exact absurd hgeneration.symm (Nat.ne_of_lt (hwins.generation_lt h₁.placed hn₁ hmanager.symm))

/-- A key is taken by a second owner after the lease of the first one has run out.
Only then does the renewal of the first one end, and the second is still renewed. -/
theorem registry_orderly_late :
    ∃ s s' r stage, Blank single ∧ Run turn Addressed single s ∧
      s.process? 1 = some (.renewing r stage) ∧ r.manager = 0 ∧ r.key = "k" ∧
      Step turn s (.turn 1) s' ∧ s'.process? 1 = none ∧
      (s'.world.manager 0).renewing "k" = true ∧
      s'.world.registered? 0 "k" = some ⟨"b", 2, 1⟩ := by
  have hblank := fresh_single.blank
  obtain ⟨s, s', r, stage, hrun, hn, hmanager, hkey, htoken, hregistered, hstep, hend⟩ :
      ∃ s s' r stage, Run turn Addressed single s ∧ s.process? 1 = some (.renewing r stage) ∧
        r.manager = 0 ∧ r.key = "k" ∧ r.token = 1 ∧
        s.world.registered? 0 "k" = some ⟨"b", 2, 1⟩ ∧ Step turn s (.turn 1) s' ∧
        s'.process? 1 = none :=
    ⟨_, _, _, _,
      Run.of_follow? [.start (.action (.tryAcquire 0 "k" "a" (.ofSeconds 1) "")), .turn 0, .turn 0,
        .pass { nanos := 2000000000 }, .start (.action (.tryAcquire 0 "k" "b" (.ofSeconds 1) "")),
        .turn 2, .turn 2, .turn 1] rfl,
      rfl, rfl, rfl, rfl, rfl, .of_step? rfl, rfl⟩
  have horderly := registry_orderly hblank hrun
  have hkept : s'.world.registered? 0 "k" = some ⟨"b", 2, 1⟩ := by
    refine (horderly.ends 1 r stage s' hn hstep hend _ _ _).mpr ⟨hregistered, ?_⟩
    rintro ⟨-, -, hsame, -⟩
    rw [htoken] at hsame
    cases hsame
  have hlater := registry_orderly hblank (.tail hrun hstep trivial)
  have hrenewing : (s'.world.manager 0).renewing "k" = true := by
    obtain ⟨n, l, q, stage', hstarted, hq, hi, hk, -⟩ := (hlater.entry_iff _ _ _).mp hkept
    exact (hlater.renewing_iff 0 "k").mpr ⟨n, l, q, stage', hstarted, hq, hi, hk⟩
  exact ⟨s, s', r, stage, hblank, hrun, hn, hmanager, hkey, hstep, hend, hrenewing, hkept⟩

end Leasehold.Lock
