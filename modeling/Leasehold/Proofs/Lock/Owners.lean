import Leasehold.Proofs.Lock.Runs
import Leasehold.Proofs.Simulation.Chronicle
import Leasehold.Proofs.TokenDesk

/-!
# The owners of default acquisitions

A default acquisition takes a fresh token on its first turn, and no other turn takes one
(`turn_owners`).  So the tokens that are taken along a run of lock managers are those of one
sequence, one after the other (`owner_eq`), and they differ for as long as a word can count
them.

The main theorem says so of lock managers, and of generators that are set up, copied and
called in any order.
-/

namespace Leasehold.Lock

open Simulation

/-! ## Which turns take a token -/

/-- The source of owner tokens after a turn, if the turn is a step. -/
def LeavesOwners (owners : OwnerSource) : Turn World Process Result → Prop
  | .waits _ => True
  | .moves w _ _ => w.owners = owners
  | .ends w _ _ _ => w.owners = owners

/-- What becomes of the source of owner tokens on a turn of a process. -/
def Process.ownersAfter (w : World) : Process → OwnerSource
  | .action (.acquireDefault ..) => w.owners.take.2
  | _ => w.owners

section

variable {now : Instant} {w : World} {owners : OwnerSource}

theorem owners_token (w : World) (name : String) : (w.token name).2.owners = w.owners := by
  unfold World.token
  split <;> rfl

theorem owners_childToken (w : World) (parent name : String) :
    (w.childToken parent name).owners = w.owners := owners_token w parent

@[simp] theorem leavesOwners_after {t : Turn World Process Result} {records : List Log.Record} :
    LeavesOwners owners (t.after records) ↔ LeavesOwners owners t := by
  cases t <;> rfl

/-- A turn of the store takes no token. -/
theorem leavesOwners_within {χ α : Type} {t : Turn Service χ α} {next : χ → Process}
    {done : World → α → Turn World Process Result}
    (hdone : ∀ s a, LeavesOwners w.owners (done (w.withService s) a)) :
    LeavesOwners w.owners (t.within w.withService next done) := by
  cases t with
  | waits => trivial
  | moves => rfl
  | ends s a started records => exact leavesOwners_after.mpr (hdone s a)

theorem leavesOwners_won (s : Service) (bid : Bid) (attempts? : Option Nat) :
    LeavesOwners w.owners (won (w.withService s) now bid attempts?) := by
  simp only [won, (w.withService s).hold_eq now bid]
  rfl

theorem leavesOwners_acquire {manager : Nat} {key owner cancel : String}
    {lease timeout : Duration} :
    LeavesOwners w.owners (acquire w now manager key owner lease timeout cancel) := by
  unfold acquire
  split
  next => rfl
  next => exact owners_token w cancel

theorem leavesOwners_begin (w : World) (a : Action) :
    LeavesOwners ((Process.action a).ownersAfter w) (begin now w a) := by
  cases a with
  | acquire => exact leavesOwners_acquire
  | acquireDefault => exact leavesOwners_acquire (w := { w with owners := w.owners.take.2 })
  | tryAcquire manager key owner lease cancel =>
    simp only [begin, tryAcquire]
    split
    next => rfl
    next => exact owners_token w cancel
  | cancel name => exact owners_token w name
  | child parent name => exact owners_childToken w parent name
  | release | config | store => rfl

theorem leavesOwners_renewalTurn (w : World) (r : Renewing) (stage : RenewalStage) :
    LeavesOwners w.owners (renewalTurn now w r stage) := by
  cases stage with
  | starting =>
    simp only [renewalTurn]
    split <;> rfl
  | waiting cycle tick? =>
    simp only [renewalTurn]
    split
    · rfl
    split
    · rfl
    split
    · trivial
    split
    · rfl
    · trivial
  | refreshing cycle next? e =>
    simp only [renewalTurn]
    exact leavesOwners_within fun _ _ => by rfl

/-- Only the first turn of a default acquisition takes a token. -/
theorem turn_owners (now : Instant) (w : World) (p : Process) :
    LeavesOwners (p.ownersAfter w) (turn now w p) := by
  cases p with
  | action a => exact leavesOwners_begin w a
  | later due? a =>
    simp only [turn]
    split
    · rfl
    · trivial
  | attempting bid deadline? attempts =>
    simp only [turn]
    split <;> rfl
  | asking bid deadline? attempts e =>
    simp only [turn]
    refine leavesOwners_within fun s a => ?_
    cases a with
    | acquired => exact leavesOwners_won s bid _
    | occupied | value | done | removed | failed => rfl
  | resting bid deadline? attempts due? =>
    simp only [turn]
    split
    · rfl
    split
    · rfl
    · trivial
  | trying bid e =>
    simp only [turn]
    refine leavesOwners_within fun s a => ?_
    cases a with
    | acquired => exact leavesOwners_won s bid _
    | occupied | value | done | removed | failed => rfl
  | releasing | store =>
    simp only [turn]
    exact leavesOwners_within fun _ _ => by rfl
  | renewing r stage => exact leavesOwners_renewalTurn w r stage

end

/-! ## The tokens of a run -/

/-- The owner for whom an acquisition goes on after a turn. -/
def bidder? : Turn World Process Result → Option String
  | .moves _ (.attempting bid _ _) _ => some bid.owner
  | _ => none

/-- The default acquisition that begins with a choice, if one does: the owner for whom it
goes on, and none if the lease in the settings is too short. -/
def defaultOwner (s : Locks) : Choice Process → List (Option String)
  | .turn i =>
      match s.process? i with
      | some (.action (.acquireDefault manager key timeout cancel)) =>
          [bidder? (turn s.now s.world (.action (.acquireDefault manager key timeout cancel)))]
      | _ => []
  | .start _ | .pass _ => []

/-- What a step takes from a source of owner tokens. -/
inductive Takes (owners : OwnerSource) : List (Option String) → OwnerSource → Prop where
  /-- It takes nothing. -/
  | nothing : Takes owners [] owners
  /-- It takes the next token, for a default acquisition that goes on with it or not at all. -/
  | next {owner?} : (∀ o, owner? = some o → o = owners.take.1) →
      Takes owners [owner?] owners.take.2

theorem bidder?_acquire {w : World} {now : Instant} {manager : Nat} {key owner cancel o : String}
    {lease timeout : Duration}
    (h : bidder? (acquire w now manager key owner lease timeout cancel) = some o) : o = owner := by
  unfold acquire at h
  split at h
  next => cases h
  next => exact (Option.some.inj h).symm

/-- A process takes what its turn leaves. -/
theorem takes_turn {s : Locks} {i : Nat} {p : Process} (hp : s.process? i = some p) :
    Takes s.world.owners (defaultOwner s (.turn i)) (p.ownersAfter s.world) := by
  have hnothing : defaultOwner s (.turn i) = [] → p.ownersAfter s.world = s.world.owners →
      Takes s.world.owners (defaultOwner s (.turn i)) (p.ownersAfter s.world) := by
    intro hnone hkept
    rw [hnone, hkept]
    exact .nothing
  cases p with
  | action a =>
    cases a with
    | acquireDefault manager key timeout cancel =>
      simp only [defaultOwner, hp]
      exact .next fun o ho => bidder?_acquire ho
    | acquire | tryAcquire | release | cancel | child | config | store =>
      exact hnothing (by simp only [defaultOwner, hp]) rfl
  | later | attempting | asking | resting | trying | releasing | renewing | store =>
    exact hnothing (by simp only [defaultOwner, hp]) rfl

theorem takes_step {s s' : Locks} {c : Choice Process} (h : Step turn s c s') :
    Takes s.world.owners (defaultOwner s c) s'.world.owners := by
  cases h with
  | @moves i p w' q records hp hturn =>
    have howners := turn_owners s.now s.world p
    rw [hturn] at howners
    rw [System.world_advance, howners]
    exact takes_turn hp
  | @ends i p w' result started records hp hturn =>
    have howners := turn_owners s.now s.world p
    rw [hturn] at howners
    rw [System.world_advance, howners]
    exact takes_turn hp
  | start | pass => exact .nothing

/-- Along a run, the default acquisitions go on with the tokens of the sequence, each with
that of its place. -/
theorem owner_eq {rule : Rule World Process} {s s' : Locks} {l : List (Option String)}
    {sequence : OwnerSequence} (h : Chronicle turn rule defaultOwner s l s')
    (hcounted : s.world.owners = .counted sequence) {i : Nat} {owner : String}
    (howner : l[i]? = some (some owner)) :
    owner = OwnerSequence.token sequence.label (sequence.next + UInt64.ofNat i).toNat := by
  induction h generalizing sequence i with
  | nil => cases howner
  | @cons t c t' l t'' hstep _ _ ih =>
    have htakes := takes_step hstep
    rw [hcounted] at htakes
    generalize defaultOwner t c = taken, t'.world.owners = owners at htakes ih howner
    cases htakes with
    | nothing => exact ih rfl howner
    | next hfirst =>
      cases i with
      | zero =>
        rw [hfirst owner (Option.some.inj howner)]
        show OwnerSequence.token _ _ = OwnerSequence.token _ (sequence.next + 0).toNat
        rw [UInt64.add_zero]
      | succ i =>
        rw [ih rfl howner, UInt64.ofNat_add, UInt64.add_comm (UInt64.ofNat i), ← UInt64.add_assoc]
        rfl

theorem ofNat_inj {m n : Nat} (hm : m < UInt64.size) (hn : n < UInt64.size)
    (h : UInt64.ofNat m = UInt64.ofNat n) : m = n := by
  rw [← UInt64.toNat_ofNat_of_lt' hm, h, UInt64.toNat_ofNat_of_lt' hn]

/-! ## The main theorem -/

open TokenDesk

/-- **Owner tokens differ** as long as there are fewer than `2 ^ 64` calls to each family of
generators.

* Generators are set up, copied and called in any order, among random ones.  Each call of a
  counting generator takes a token, and two different calls take the same token exactly if
  they are calls to different families that were set up with the same label, and have the
  same place among the calls to their families.  So calls to one family never take the same
  token, and neither do calls to families with different labels.
* Default acquisitions of lock managers that share a sequence go on for different owners,
  whatever else goes on, whether they win or not. -/
theorem owners_distinct :
    (∀ (randomness : Randomness) (steps : List TokenDesk.Step),
      (∀ f, (Families.ofSteps steps).calls.count f < UInt64.size) →
      ∀ i j c c', i ≠ j → callAt? steps i = some c → callAt? steps j = some c' →
        ∃ t t' same same',
          (TokenDesk.run randomness steps)[i]? = some (.taken t false same) ∧
          (TokenDesk.run randomness steps)[j]? = some (.taken t' false same') ∧
          (t = t' ↔ c.family ≠ c'.family ∧ c.label = c'.label ∧ c.ordinal = c'.ordinal)) ∧
    ∀ (rule : Rule World Process) (s s' : Locks) (l : List (Option String))
      (sequence : OwnerSequence), s.world.owners = .counted sequence →
      Chronicle turn rule defaultOwner s l s' → l.length < UInt64.size →
      ∀ (i j : Nat) (owner : String), l[i]? = some (some owner) → l[j]? = some (some owner) →
        i = j := by
  refine ⟨fun randomness steps hfew i j c c' hne hc hc' => ?_,
    fun rule s s' l sequence hcounted hrun hfew i j owner hi hj => ?_⟩
  · have hfits := Nat.lt_of_le_of_lt (Families.ordinal_le_calls hc) (hfew _)
    have hfits' := Nat.lt_of_le_of_lt (Families.ordinal_le_calls hc') (hfew _)
    obtain ⟨same, htaken⟩ := taken_of_callAt? randomness hc hfits
    obtain ⟨same', htaken'⟩ := taken_of_callAt? randomness hc' hfits'
    refine ⟨_, _, same, same', htaken, htaken', ?_⟩
    rw [OwnerSequence.token_inj]
    exact ⟨fun ⟨hlabel, hordinal⟩ => ⟨Families.family_ne hc hc' hne hordinal, hlabel, hordinal⟩,
      And.right⟩
  · have htokens := (owner_eq hrun hcounted hi).symm.trans (owner_eq hrun hcounted hj)
    have hwords := UInt64.toNat_inj.mp (OwnerSequence.token_inj.mp htokens).2
    have hilt : i < l.length := (List.getElem?_eq_some_iff.mp hi).1
    have hjlt : j < l.length := (List.getElem?_eq_some_iff.mp hj).1
    exact ofNat_inj (Nat.lt_trans hilt hfew) (Nat.lt_trans hjlt hfew)
      ((UInt64.add_right_inj _).mp hwords)

/-- Two families with one label, a copy in the first, and a third family whose label looks
like a token of theirs. -/
def lookalikes : List TokenDesk.Step :=
  [.sequential "a", .copy 0, .next 0, .next 1, .sequential "a", .next 2, .sequential "a-1", .next 3]

/-- What comes of the steps. -/
def lookalikeResults : List TokenDesk.Result := TokenDesk.run ⟨fun _ => 0, 0⟩ lookalikes

/-- Two default acquisitions begin. -/
def defaults : List (Choice Process) :=
  [.start (.action (.acquireDefault 0 "k" .zero "c")), .turn 0,
    .start (.action (.acquireDefault 0 "k" .zero "c")), .turn 1]

theorem owners_distinct_lookalikes :
    (∀ f, (Families.ofSteps lookalikes).calls.count f < UInt64.size) ∧
    (callAt? lookalikes 2 = some ⟨0, "a", 1⟩ ∧ callAt? lookalikes 3 = some ⟨0, "a", 2⟩ ∧
      callAt? lookalikes 5 = some ⟨1, "a", 1⟩ ∧ callAt? lookalikes 7 = some ⟨2, "a-1", 1⟩) ∧
    (∃ t same same', lookalikeResults[2]? = some (.taken t false same) ∧
      lookalikeResults[5]? = some (.taken t false same')) ∧
    (∃ t t' same same', lookalikeResults[2]? = some (.taken t false same) ∧
      lookalikeResults[3]? = some (.taken t' false same') ∧ t ≠ t') ∧
    (∃ t t' same same', lookalikeResults[5]? = some (.taken t false same) ∧
      lookalikeResults[7]? = some (.taken t' false same') ∧ t ≠ t') ∧
    ∃ s owner owner', Chronicle turn Admitted defaultOwner single [some owner, some owner'] s ∧
      owner ≠ owner' := by
  have hfew : ∀ f, (Families.ofSteps lookalikes).calls.count f < UInt64.size := fun f =>
    Nat.lt_of_le_of_lt List.count_le_length (by decide)
  have h₂ : callAt? lookalikes 2 = some ⟨0, "a", 1⟩ := by decide
  have h₃ : callAt? lookalikes 3 = some ⟨0, "a", 2⟩ := by decide
  have h₅ : callAt? lookalikes 5 = some ⟨1, "a", 1⟩ := by decide
  have h₇ : callAt? lookalikes 7 = some ⟨2, "a-1", 1⟩ := by decide
  have hdesk := owners_distinct.1 ⟨fun _ => 0, 0⟩ lookalikes hfew
  refine ⟨hfew, ⟨h₂, h₃, h₅, h₇⟩, ?_, ?_, ?_, ?_⟩
  · obtain ⟨t, t', same, same', ht, ht', heq⟩ := hdesk 2 5 _ _ (by decide) h₂ h₅
    obtain rfl := heq.mpr ⟨by decide, rfl, rfl⟩
    exact ⟨t, same, same', ht, ht'⟩
  · obtain ⟨t, t', same, same', ht, ht', heq⟩ := hdesk 2 3 _ _ (by decide) h₂ h₃
    exact ⟨t, t', same, same', ht, ht', fun h => (heq.mp h).1 rfl⟩
  · obtain ⟨t, t', same, same', ht, ht', heq⟩ := hdesk 5 7 _ _ (by decide) h₅ h₇
    exact ⟨t, t', same, same', ht, ht', fun h => absurd (heq.mp h).2.1 (by decide)⟩
  · have hruns : (single.follow? turn Admitted defaults).isSome = true := by decide +kernel
    have hgoes : (single.notes turn defaultOwner defaults).map Option.isSome = [true, true] := by
      decide +kernel
    obtain ⟨s, hs⟩ := Option.isSome_iff_exists.mp hruns
    have hchronicle : Chronicle turn Admitted defaultOwner single _ s := .of_follow? defaults hs
    generalize single.notes turn defaultOwner defaults = l at hgoes hchronicle
    match l, hgoes with
    | [some owner, some owner'], _ =>
      refine ⟨s, owner, owner', hchronicle, ?_⟩
      rintro rfl
      have hshort : [some owner, some owner].length < UInt64.size :=
        Nat.lt_of_lt_of_le (Nat.lt_succ_self 2) (by decide)
      cases owners_distinct.2 _ _ _ _ {} rfl hchronicle hshort 0 1 owner rfl rfl

end Leasehold.Lock
