import Leasehold.Proofs.Pool.Books
import Mathlib.Data.List.Nodup

/-!
# Where the resources of a pool are

Every resource that was made is idle, in the hands of a user, in the hands of an
operation under way, or was passed on to be destroyed.  `Custody` says so once for
all resources: what is found in these places is what was made, one by one.
`Deed.custody` shows it for one deed and `Fresh.custody` along a run.

From this come the places of a single resource: it has exactly one
(`Custody.place`), nothing is there twice, and a resource that is handed out was in
nobody's hands and was not destroyed (`HandsOut.place`).
-/

namespace Leasehold

/-- The resource that a job makes, if it makes one. -/
def Work.product (work : Work) : List Nat :=
  match work.outcome with
  | .ok id => [id]
  | .error _ => []

theorem Work.product_of_ok {work : Work} {id : Nat} (h : work.outcome = .ok id) :
    work.product = [id] := by
  rw [product, h]

theorem Work.product_of_error {work : Work} {e : ResourceError} (h : work.outcome = .error e) :
    work.product = [] := by
  rw [product, h]

namespace Pool

open Simulation

/-- The resources in the hands of an operation: not those that it has passed on to
be destroyed, but one that is being made for it. -/
@[simp] def Process.hands : Process → List Nat
  | .filling _ made work => made.map (·.id) ++ work.product
  | .emptying rest _ _ => rest.map (·.id)
  | .checking e _ => [e.id]
  | .creating work => work.product
  | .releasing rest _ _ => rest.map (·.id)
  | .getting | .evicting .. | .rejecting .. | .closing _ => []

namespace Scenario

/-- The resources in the hands of a process. -/
def Process.hands : Process → List Nat
  | .operation p => p.hands
  | .action _ | .checking _ | .asleep _ => []

@[simp] theorem Process.hands_operation (p : Pool.Process) :
    (Process.operation p).hands = p.hands := rfl

@[simp] theorem Process.hands_action (a : Action) : (Process.action a).hands = [] := rfl

theorem Process.IsAside.hands {p : Process} (h : p.IsAside) : p.hands = [] := by
  cases p with
  | operation => cases h
  | action | checking | asleep => rfl

namespace World

/-- The idle resources. -/
def idleIds (w : World) : List Nat := w.inner.pool.idle.map (·.id)

theorem kept_eq (w : World) : w.kept = w.idleIds.length + w.held.length := by
  rw [kept, idleIds, List.length_map]

/-- The resources that were passed on to be destroyed. -/
def destroyed (w : World) : List Nat := w.inner.supply.destroyed

/-- The resources that were made. -/
def made (w : World) : List Nat := List.range' 1 w.inner.supply.made

/-- The resources that are in no operation's hands, as they are found: idle ones,
those of users, and those that were passed on to be destroyed. -/
def found (w : World) : List Nat := w.idleIds ++ w.held ++ w.destroyed

theorem count_found (w : World) (id : Nat) :
    w.found.count id = w.idleIds.count id + w.held.count id + w.destroyed.count id := by
  rw [found, List.count_append, List.count_append]

variable (w : World)

@[simp] theorem destroyed_withPool (p : Pool) : (w.withPool p).destroyed = w.destroyed := rfl

@[simp] theorem made_withPool (p : Pool) : (w.withPool p).made = w.made := rfl

@[simp] theorem task_withPool (p : Pool) (now : Instant) (job : Job) :
    (w.withPool p).task now job = w.task now job := rfl

@[simp] theorem idleIds_handOut (id : Nat) : (w.handOut id).idleIds = w.idleIds := rfl

@[simp] theorem destroyed_handOut (id : Nat) : (w.handOut id).destroyed = w.destroyed := rfl

@[simp] theorem made_handOut (id : Nat) : (w.handOut id).made = w.made := rfl

@[simp] theorem destroyed_handIn (id : Nat) : (w.handIn id).destroyed = w.destroyed := rfl

@[simp] theorem made_handIn (id : Nat) : (w.handIn id).made = w.made := rfl

variable (now : Instant)

@[simp] theorem idleIds_assign (job : Job) : (w.assign now job).idleIds = w.idleIds := rfl

@[simp] theorem destroyed_assign_destroy (id : Nat) :
    (w.assign now (.destroy id)).destroyed = w.destroyed ++ [id] :=
  Supply.destroyed_give_destroy w.inner.supply now id

@[simp] theorem destroyed_assign_check (id : Nat) :
    (w.assign now (.check id)).destroyed = w.destroyed :=
  Supply.destroyed_give_check w.inner.supply now id

@[simp] theorem destroyed_assign_create : (w.assign now .create).destroyed = w.destroyed :=
  Supply.destroyed_give_create w.inner.supply now

@[simp] theorem made_assign_destroy (id : Nat) : (w.assign now (.destroy id)).made = w.made := by
  rw [made, supply_assign, Supply.made_give_destroy, made]

@[simp] theorem made_assign_check (id : Nat) : (w.assign now (.check id)).made = w.made := by
  rw [made, supply_assign, Supply.made_give_check, made]

/-- What a job makes is new. -/
@[simp] theorem made_assign_create :
    (w.assign now .create).made = w.made ++ (w.task now .create).product := by
  rw [made, made, supply_assign]
  obtain ⟨hout, hmade⟩ | ⟨⟨e, hout⟩, hmade⟩ := Supply.give_create w.inner.supply now
  · have hproduct : (w.task now .create).product = [w.inner.supply.made + 1] :=
      Work.product_of_ok hout
    rw [hmade, List.range'_1_concat, hproduct, Nat.add_comm 1]
  · have hproduct : (w.task now .create).product = [] := Work.product_of_error hout
    rw [hmade, hproduct, List.append_nil]

variable {w}

theorem count_held_handIn {id : Nat} (h : id ∈ w.held) (x : Nat) :
    (w.handIn id).held.count x + [id].count x = w.held.count x := by
  have hcount := (List.perm_cons_erase h).count_eq x
  rw [held_handIn, hcount, List.count_cons, List.count_cons, List.count_nil, Nat.zero_add]

theorem Alike.found {w' : World} (h : w.Alike w') : w'.found = w.found := by
  rw [World.found, World.found, idleIds, idleIds, World.destroyed, World.destroyed, h.pool, h.held,
    h.destroyed]

theorem Alike.made_eq {w' : World} (h : w.Alike w') : w'.made = w.made := by
  rw [World.made, World.made, h.made]

end World

/-! ## Custody over a deed -/

variable {now : Instant} {w w' : World} {p : Process} {next? : Option Process}
  {out? : Option Outcome} {count : Nat} {rest : List Idle}

theorem Drains.custody (h : Drains now w count rest w' next? out?) (id : Nat) :
    w'.found.count id + measure? (fun q => q.hands.count id) next? + w.made.count id =
      w.found.count id + (rest.map (·.id)).count id + w'.made.count id := by
  cases h with
  | empty => rfl
  | next =>
    simp [World.count_found, List.count_cons]
    omega

/-- A deed moves resources from place to place, and what is new is in the hands of
the operation that had it made. -/
theorem Deed.custody (h : Deed now w p w' next? out?) (id : Nat) :
    w'.found.count id + measure? (fun q => q.hands.count id) next? + w.made.count id =
      w.found.count id + p.hands.count id + w'.made.count id := by
  cases h with
  | aside hp hw hnext _ =>
    have hnone : measure? (fun q => q.hands.count id) next? = 0 :=
      measure?_eq_zero_of_aside (fun q hq => by rw [hq.hands]; rfl) hnext
    rw [hnone, hp.hands, hw.found, hw.made_eq]
    rfl
  | reserved =>
    simp [World.count_found, World.idleIds]
    omega
  | taken _ hidle | outdated _ hidle | inspected _ hidle =>
    simp [World.count_found, World.idleIds, hidle, List.count_cons]
    omega
  | sound | unsound =>
    simp [World.count_found, List.count_cons]
    omega
  | made hout =>
    simp [World.count_found, World.idleIds, List.count_cons, Work.product_of_ok hout]
    omega
  | unmade hout =>
    simp [World.count_found, World.idleIds, Work.product_of_error hout]
  | stored hheld | rejected hheld | surrendered hheld =>
    have hcount := World.count_held_handIn hheld id
    simp [World.count_found, Pool.enqueue, World.idleIds, List.count_cons] at *
    omega
  | released _ hdrains =>
    have hcustody := hdrains.custody id
    simp [World.count_found, World.idleIds] at *
    omega
  | drained hdrains => exact hdrains.custody id
  | wanted | refused | exhausted | evicted | unheld | disposed | closed | shut => rfl

/-! ## Custody along a run -/

variable {s s' : Use} {c : Choice Process}

/-- The resources in the hands of operations under way. -/
def inHands (s : Use) : List Nat := s.running.flatMap Process.hands

/-- What is found and what is in the hands of operations is what was made, one by
one. -/
def Custody (s : Use) : Prop := (s.world.found ++ inHands s).Perm s.world.made

theorem custody_iff : Custody s ↔ ∀ id,
    s.world.found.count id + s.tally (fun p => p.hands.count id) = s.world.made.count id := by
  simp only [Custody, inHands, List.perm_iff_count, List.count_append,
    System.count_flatMap_running]

theorem Fresh.custody (h : Fresh s) : Custody s := by
  rw [Custody, inHands, h.quiet, World.found, World.idleIds, h.idle, h.held, World.destroyed,
    h.destroyed, World.made, h.made]
  simp

theorem Custody.step (hs : Custody s) (h : Doing s c s') : Custody s' := by
  rw [custody_iff] at hs ⊢
  intro id
  have hbefore := hs id
  cases h with
  | @deed i p w' next? out? hp hdeed =>
    have hcustody := hdeed.custody id
    have htally := System.tally_advance (fun p => p.hands.count id) hp w' next? []
    simp only [List.map_nil, List.sum_nil] at htally
    rw [System.world_advance]
    omega
  | start hadmitted =>
    obtain ⟨a, rfl, -⟩ := hadmitted.action
    rwa [System.world_add, System.tally_add]
  | pass t => exact hbefore

theorem Fresh.run_custody (h : Fresh s) (hrun : Run turn Admitted s s') : Custody s' :=
  h.preserves Custody.step h.custody hrun

/-! ## The place of a resource -/

/-- A place where a resource can be. -/
inductive Place where
  /-- The queue of the pool. -/
  | idle
  /-- The hands of the users. -/
  | held
  /-- The hands of an operation under way. -/
  | operation (i : Nat)
  /-- The resources that were passed on to be destroyed. -/
  | destroyed
deriving DecidableEq, Repr

/-- The resources in a place. -/
def resources (s : Use) : Place → List Nat
  | .idle => s.world.idleIds
  | .held => s.world.held
  | .operation i =>
      match s.process? i with
      | some p => p.hands
      | none => []
  | .destroyed => s.world.destroyed

theorem resources_operation {i : Nat} {p : Process} (h : s.process? i = some p) :
    resources s (.operation i) = p.hands := by
  rw [resources, h]

theorem count_made_le_one (w : World) (id : Nat) : w.made.count id ≤ 1 :=
  List.nodup_iff_count_le_one.mp (List.nodup_range' ..) id

theorem count_resources_operation_le (s : Use) (id i : Nat) :
    (resources s (.operation i)).count id ≤ s.tally fun p => p.hands.count id := by
  cases hp : s.process? i with
  | none => simp [resources, hp]
  | some p =>
    rw [resources_operation hp]
    exact System.le_tally (fun p => p.hands.count id) hp

theorem count_resources_operations_le (s : Use) (id : Nat) {i j : Nat} (hne : j ≠ i) :
    (resources s (.operation i)).count id + (resources s (.operation j)).count id ≤
      s.tally fun p => p.hands.count id := by
  cases hp : s.process? i with
  | none => simpa [resources, hp] using count_resources_operation_le s id j
  | some p =>
    cases hq : s.process? j with
    | none => simpa [resources, hq] using count_resources_operation_le s id i
    | some q =>
      rw [resources_operation hp, resources_operation hq]
      exact System.add_le_tally (fun p => p.hands.count id) hne hp hq

/-- No resource is twice in a place. -/
theorem Custody.nodup (h : Custody s) (place : Place) : (resources s place).Nodup := by
  rw [List.nodup_iff_count_le_one]
  intro id
  -- The supply gives every number once, so all places together have it at most once.
  have htotal := custody_iff.mp h id
  have hmade := count_made_le_one s.world id
  rw [World.count_found] at htotal
  cases place with
  | idle | held | destroyed =>
    simp only [resources]
    omega
  | operation i =>
    have hle := count_resources_operation_le s id i
    omega

/-- No resource is in two places. -/
theorem Custody.apart (h : Custody s) {id : Nat} {place place' : Place}
    (hmem : id ∈ resources s place) (hmem' : id ∈ resources s place') : place' = place := by
  have htotal := custody_iff.mp h id
  have hmade := count_made_le_one s.world id
  rw [← List.count_pos_iff] at hmem hmem'
  rw [World.count_found] at htotal
  cases place with
  | operation i =>
    have hle := count_resources_operation_le s id i
    cases place' with
    | operation j =>
      by_cases hne : j = i
      · rw [hne]
      · have hpair := count_resources_operations_le s id hne
        omega
    | idle | held | destroyed =>
      simp only [resources] at hmem'
      omega
  | idle | held | destroyed =>
    simp only [resources] at hmem
    cases place' with
    | operation j =>
      have hle := count_resources_operation_le s id j
      omega
    | idle | held | destroyed =>
      simp only [resources] at hmem'
      first | rfl | omega

/-- What is in a place was made. -/
theorem Custody.mem_made (h : Custody s) {id : Nat} {place : Place}
    (hmem : id ∈ resources s place) : id ∈ s.world.made := by
  have htotal := custody_iff.mp h id
  rw [← List.count_pos_iff] at hmem ⊢
  rw [World.count_found] at htotal
  cases place with
  | operation i =>
    have hle := count_resources_operation_le s id i
    omega
  | idle | held | destroyed =>
    simp only [resources] at hmem
    omega

/-- Every resource that was made has one place. -/
theorem Custody.place (h : Custody s) {id : Nat} (hmade : id ∈ s.world.made) :
    ∃! place, id ∈ resources s place := by
  have hplace : ∃ place, id ∈ resources s place := by
    have hmem := h.mem_iff.mpr hmade
    simp only [World.found, inHands, List.mem_append, List.mem_flatMap] at hmem
    obtain ((hidle | hheld) | hdestroyed) | ⟨p, hp, hhands⟩ := hmem
    · exact ⟨.idle, hidle⟩
    · exact ⟨.held, hheld⟩
    · exact ⟨.destroyed, hdestroyed⟩
    · obtain ⟨i, hi⟩ := System.exists_process?_of_mem_running hp
      exact ⟨.operation i, by rwa [resources_operation hi]⟩
  obtain ⟨place, hmem⟩ := hplace
  exact ⟨place, hmem, fun place' hmem' => h.apart hmem hmem'⟩

/-! ## The place of a resource that is handed out -/

theorem Drains.not_resource {id : Nat} (h : Drains now w count rest w' next? out?) :
    out? ≠ some (.result (.resource id)) := by
  cases h <;> simp

theorem Deed.of_resource {id : Nat} (h : Deed now w p w' next? out?)
    (hout : out? = some (.result (.resource id))) :
    (id ∈ w.idleIds ∨ id ∈ p.hands) ∧ id ∈ w'.held := by
  cases h with
  | aside _ _ _ hnot => exact absurd hout (hnot id)
  | taken _ hidle =>
    cases hout
    simp [World.idleIds, hidle]
  | sound =>
    cases hout
    simp
  | made houtcome =>
    cases hout
    simp [Work.product_of_ok houtcome]
  | @disposed reason => cases reason <;> cases hout
  | @closed work => cases houtcome : work.outcome <;> rw [houtcome] at hout <;> cases hout
  | released _ hdrains | drained hdrains => exact absurd hout hdrains.not_resource
  | _ => cases hout

/-- A resource that is handed out was idle or in the hands of the operation, and is
in the hands of a user then. -/
theorem HandsOut.place {i id : Nat} (h : HandsOut s i id s') (hs : Sound s) :
    (id ∈ resources s .idle ∨ id ∈ resources s (.operation i)) ∧ id ∈ resources s' .held := by
  obtain ⟨p, w, hp, hdeed, rfl⟩ := h.deed hs
  rw [resources_operation hp]
  exact hdeed.of_resource rfl

/-- What is handed out was neither in the hands of a user nor destroyed. -/
theorem Custody.not_handsOut (h : Custody s) (hs : Sound s) {i id : Nat}
    (hmem : id ∈ resources s .held ∨ id ∈ resources s .destroyed) : ¬ HandsOut s i id s' := by
  intro hout
  obtain hidle | hhands := (hout.place hs).1 <;> obtain hheld | hdestroyed := hmem
  · cases h.apart hidle hheld
  · cases h.apart hidle hdestroyed
  · cases h.apart hhands hheld
  · cases h.apart hhands hdestroyed

end Scenario

end Pool

end Leasehold
