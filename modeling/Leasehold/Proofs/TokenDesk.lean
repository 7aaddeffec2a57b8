import Leasehold.Proofs.Text.Numeral
import Leasehold.TokenDesk

/-!
# Counted tokens at a desk

A counted token tells what it was made of (`token_inj`): its number is what stands behind
the last dash, whatever dashes and digits there are in its label.

Generators that were copied from each other are a *family*, and only they share a
sequence.  `Families` follows them through a list of steps, and the calls to each of them,
without a look at any sequence.  A desk agrees with them (`Families.Follows`): the next
number of a family is one more than the calls to it, as far as a word can count them.  So
a call takes the token of its place among the calls to its family
(`taken_of_callAt?`), and no two calls to one family have the same place (`family_ne`).
-/

namespace Leasehold

/-! ## Tokens tell their numbers -/

namespace OwnerSequence

theorem eq_of_append_cons {α : Type} {a : α} {front front' back back' : List α} (hback : a ∉ back)
    (hback' : a ∉ back') (h : front ++ a :: back = front' ++ a :: back') :
    front = front' ∧ back = back' := by
  -- What one front is longer than the other begins with `a` and is a part of a back.
  obtain ⟨rest, rfl, hrest⟩ | ⟨rest, rfl, hrest⟩ := List.append_eq_append_iff.mp h
  · cases rest with
    | nil => cases hrest; exact ⟨(List.append_nil _).symm, rfl⟩
    | cons b rest =>
      obtain ⟨-, rfl⟩ := List.cons_eq_cons.mp hrest
      exact absurd (List.mem_append_right rest List.mem_cons_self) hback
  · cases rest with
    | nil => cases hrest; exact ⟨List.append_nil _, rfl⟩
    | cons b rest =>
      obtain ⟨-, rfl⟩ := List.cons_eq_cons.mp hrest
      exact absurd (List.mem_append_right rest List.mem_cons_self) hback'

theorem dash_not_mem_decimal (n : Nat) : '-' ∉ Numeral.decimal n := fun h =>
  absurd (Numeral.isDigit_of_mem_decimal h) (by decide)

/-- A token tells its label and its number. -/
theorem token_inj {label label' : String} {n n' : Nat} :
    token label n = token label' n' ↔ label = label' ∧ n = n' := by
  refine ⟨fun h => ?_, fun ⟨hlabel, hn⟩ => by rw [hlabel, hn]⟩
  have htexts : label.toList ++ '-' :: Numeral.decimal n =
      label'.toList ++ '-' :: Numeral.decimal n' := by
    simpa [token] using congrArg String.toList h
  obtain ⟨hlabel, hdigits⟩ :=
    eq_of_append_cons (dash_not_mem_decimal n) (dash_not_mem_decimal n') htexts
  refine ⟨String.toList_inj.mp hlabel, ?_⟩
  rw [← Numeral.value_decimal n, hdigits, Numeral.value_decimal]

end OwnerSequence

namespace TokenDesk

open OwnerSequence

/-! ## Families of generators -/

/-- The families of the generators at a desk, and the calls to them. -/
structure Families where
  /-- The label of each family, in the order in which they were set up. -/
  labels : List String := []
  /-- The family of each generator; a random one has none. -/
  members : List (Option Nat) := []
  /-- The family of each generator that a token was taken from, call by call. -/
  calls : List Nat := []

/-- A call of a counting generator. -/
structure Call where
  /-- The family of the generator. -/
  family : Nat
  /-- The label with which the family was set up. -/
  label : String
  /-- Which of the calls to the family it is, from one on. -/
  ordinal : Nat
deriving DecidableEq

namespace Families

/-- The family of the generator of a number. -/
def family? (l : Families) (i : Nat) : Option Nat := l.members[i]?.join

/-- The families after one more step. -/
def enter (l : Families) : Step → Families
  | .sequential label =>
      { l with labels := l.labels ++ [label], members := l.members ++ [some l.labels.length] }
  | .random _ => { l with members := l.members ++ [none] }
  | .copy i => { l with members := l.members ++ l.members[i]?.toList }
  | .next i => { l with calls := l.calls ++ (l.family? i).toList }
  | .token _ => l

/-- The call that a step is, if it takes a token from a counting generator. -/
def call? (l : Families) : Step → Option Call
  | .next i => do
      let family ← l.family? i
      let label ← l.labels[family]?
      some ⟨family, label, l.calls.count family + 1⟩
  | .sequential _ | .random _ | .copy _ | .token _ => none

/-- The families after a list of steps. -/
def ofSteps (steps : List Step) : Families := steps.foldl enter {}

end Families

/-- The call that is made with the step of a number. -/
def callAt? (steps : List Step) (i : Nat) : Option Call :=
  steps[i]?.bind (Families.ofSteps (steps.take i)).call?

namespace Families

variable {l : Families} {s : Step} {steps : List Step} {c c' : Call} {i j f : Nat}

theorem ofSteps_concat (steps : List Step) (s : Step) :
    ofSteps (steps ++ [s]) = (ofSteps steps).enter s := by
  simp [ofSteps]

theorem call?_eq_some (h : l.call? s = some c) :
    ∃ i, s = .next i ∧ l.family? i = some c.family ∧ l.labels[c.family]? = some c.label ∧
      c.ordinal = l.calls.count c.family + 1 := by
  cases s with
  | next i =>
    simp only [call?, Option.bind_eq_bind, Option.bind_eq_some_iff] at h
    obtain ⟨family, hfamily, label, hlabel, hc⟩ := h
    cases hc
    exact ⟨i, rfl, hfamily, hlabel, rfl⟩
  | sequential | random | copy | token => cases h

/-! ## The places of calls -/

/-- No call is forgotten. -/
theorem calls_prefix_enter (l : Families) (s : Step) : l.calls <+: (l.enter s).calls := by
  cases s with
  | next i => exact List.prefix_append _ _
  | sequential | random | copy | token => exact List.prefix_refl _

theorem calls_prefix_foldl (l : Families) (steps : List Step) :
    l.calls <+: (steps.foldl enter l).calls := by
  induction steps generalizing l with
  | nil => exact List.prefix_refl _
  | cons s steps ih => exact (l.calls_prefix_enter s).trans (ih _)

theorem count_take_le (steps : List Step) (h : i ≤ j) (f : Nat) :
    (ofSteps (steps.take i)).calls.count f ≤ (ofSteps (steps.take j)).calls.count f := by
  have hsplit := List.take_append_drop i (steps.take j)
  rw [List.take_take, Nat.min_eq_left h] at hsplit
  rw [← hsplit, ofSteps, ofSteps, List.foldl_append]
  exact (calls_prefix_foldl _ _).sublist.count_le f

/-- From the call on, there are as many calls to its family as its place says. -/
theorem ordinal_le (h : callAt? steps i = some c) (hlt : i < j) :
    c.ordinal ≤ (ofSteps (steps.take j)).calls.count c.family := by
  obtain ⟨s, hs, hcall⟩ := Option.bind_eq_some_iff.mp h
  obtain ⟨g, rfl, hfamily, -, hordinal⟩ := call?_eq_some hcall
  have hafter : (ofSteps (steps.take (i + 1))).calls =
      (ofSteps (steps.take i)).calls ++ [c.family] := by
    rw [List.take_add_one, hs, Option.toList_some, ofSteps_concat, enter, hfamily,
      Option.toList_some]
  calc c.ordinal = (ofSteps (steps.take (i + 1))).calls.count c.family := by
        rw [hordinal, hafter, List.count_append, List.count_singleton_self]
    _ ≤ (ofSteps (steps.take j)).calls.count c.family := count_take_le steps hlt c.family

/-- The calls to a family have their places in order. -/
theorem ordinal_lt (h : callAt? steps i = some c) (h' : callAt? steps j = some c') (hlt : i < j)
    (hfamily : c.family = c'.family) : c.ordinal < c'.ordinal := by
  obtain ⟨s, -, hcall⟩ := Option.bind_eq_some_iff.mp h'
  obtain ⟨-, -, -, -, hordinal⟩ := call?_eq_some hcall
  rw [hordinal, ← hfamily]
  exact Nat.lt_succ_of_le (ordinal_le h hlt)

theorem ordinal_le_calls (h : callAt? steps i = some c) :
    c.ordinal ≤ (ofSteps steps).calls.count c.family := by
  have hle := ordinal_le h (Nat.lt_succ_of_le (Nat.le_max_left i steps.length))
  rwa [List.take_of_length_le (Nat.le_succ_of_le (Nat.le_max_right i steps.length))] at hle

/-- Different calls to one family have different places. -/
theorem family_ne (h : callAt? steps i = some c) (h' : callAt? steps j = some c') (hne : i ≠ j)
    (hordinal : c.ordinal = c'.ordinal) : c.family ≠ c'.family := by
  intro hfamily
  obtain hlt | hlt := Nat.lt_or_gt_of_ne hne
  · exact Nat.ne_of_lt (ordinal_lt h h' hlt hfamily) hordinal
  · exact Nat.ne_of_lt (ordinal_lt h' h hlt hfamily.symm) hordinal.symm

end Families

/-! ## Desks follow the families -/

/-- The number of the sequence that a generator takes from. -/
def Generator.sequence? : Generator → Option Nat
  | .counting k => some k
  | .random _ => none

/-- The sequence of a family after a number of calls to it. -/
def sequenceAfter (label : String) (calls : Nat) : OwnerSequence :=
  ⟨label, UInt64.ofNat (calls + 1)⟩

/-- A desk has a sequence for each family, and each sequence is as far as there were
calls to the family. -/
structure Families.Follows (l : Families) (d : Desk) : Prop where
  members : d.generators.map Generator.sequence? = l.members
  length : d.sequences.length = l.labels.length
  sequence : ∀ f, d.sequences[f]? = l.labels[f]?.map (sequenceAfter · (l.calls.count f))
  calls_lt : ∀ f ∈ l.calls, f < l.labels.length
  members_lt : ∀ f, some f ∈ l.members → f < l.labels.length

namespace Families.Follows

variable {l : Families} {d : Desk} {s : Step} {c : Call} {i f : Nat}

theorem new (randomness : Randomness) : Follows {} { randomness } := by
  refine ⟨rfl, rfl, fun f => rfl, ?_, ?_⟩ <;> simp

/-- The family of a generator is the sequence that it takes from. -/
theorem family?_eq (h : l.Follows d) (i : Nat) :
    l.family? i = d.generators[i]?.bind Generator.sequence? := by
  rw [family?, ← h.members, List.getElem?_map]
  cases d.generators[i]? <;> rfl

theorem lt_of_family? (h : l.Follows d) (hf : l.family? i = some f) : f < l.labels.length :=
  h.members_lt f (List.mem_of_getElem? (Option.join_eq_some_iff.mp hf))

/-- A call to a family takes the token of its place. -/
theorem take_counting (h : l.Follows d) {label : String} (hlabel : l.labels[f]? = some label) :
    d.take (.counting f) =
      (token label (UInt64.ofNat (l.calls.count f + 1)).toNat,
        { d with sequences := d.sequences.set f (sequenceAfter label (l.calls.count f + 1)) }) := by
  have hnext : UInt64.ofNat (l.calls.count f + 1) + 1 = UInt64.ofNat (l.calls.count f + 1 + 1) :=
    (UInt64.ofNat_add _ 1).symm
  simp only [Desk.take, h.sequence, hlabel, Option.map_some, Option.getD_some, OwnerSequence.take,
    sequenceAfter, hnext]

theorem calls_eq_zero (h : l.Follows d) (hf : l.labels.length ≤ f) : l.calls.count f = 0 :=
  List.count_eq_zero_of_not_mem fun hmem => Nat.not_lt.mpr hf (h.calls_lt f hmem)

/-! ### One step -/

theorem sequential (h : l.Follows d) (label : String) :
    (l.enter (.sequential label)).Follows (d.perform (.sequential label)).2 where
  members := by
    simp only [Desk.perform, Desk.withGenerator, enter, List.map_append, h.members, h.length]
    rfl
  length := by
    simp only [Desk.perform, Desk.withGenerator, enter, List.length_append, h.length]
    rfl
  sequence f := by
    simp only [Desk.perform, Desk.withGenerator, enter, List.getElem?_append, h.length]
    split
    next hlt => exact h.sequence f
    next hge =>
      rw [h.calls_eq_zero (Nat.le_of_not_lt hge)]
      cases f - l.labels.length <;> rfl
  calls_lt f hf := by
    simpa [enter] using Nat.lt_succ_of_lt (h.calls_lt f hf)
  members_lt f hf := by
    simp only [enter, List.mem_append, List.mem_singleton, Option.some.injEq] at hf
    simp only [enter, List.length_append, List.length_singleton]
    obtain hf | rfl := hf
    · exact Nat.lt_succ_of_lt (h.members_lt f hf)
    · exact Nat.lt_succ_self _

/-- A generator is added that takes from no new sequence. -/
theorem withGenerator (h : l.Follows d) (g : Generator)
    (hg : ∀ k, g.sequence? = some k → k < l.labels.length) :
    Follows { l with members := l.members ++ [g.sequence?] } (d.withGenerator g) where
  members := by
    simp only [Desk.withGenerator, List.map_append, h.members]
    rfl
  length := h.length
  sequence := h.sequence
  calls_lt := h.calls_lt
  members_lt f hf := by
    obtain hf | hf := List.mem_append.mp hf
    · exact h.members_lt f hf
    · exact hg f (List.mem_singleton.mp hf).symm

theorem copy (h : l.Follows d) (i : Nat) : (l.enter (.copy i)).Follows (d.perform (.copy i)).2 := by
  have hmember : l.members[i]? = d.generators[i]?.map Generator.sequence? := by
    rw [← h.members, List.getElem?_map]
  simp only [enter, Desk.perform]
  cases hg : d.generators[i]? with
  | none =>
    rw [hg] at hmember
    rw [hmember]
    simpa using h
  | some g =>
    rw [hg] at hmember
    rw [hmember]
    refine h.withGenerator g fun k hk => ?_
    rw [Option.map_some, hk] at hmember
    exact h.members_lt k (List.mem_of_getElem? hmember)

/-- What was seen last does not matter. -/
theorem see (h : l.Follows d) (t : String) : l.Follows (d.see t).2 :=
  ⟨h.members, h.length, h.sequence, h.calls_lt, h.members_lt⟩

theorem counted (h : l.Follows d) (hf : f < l.labels.length) :
    Follows { l with calls := l.calls ++ [f] } (d.take (.counting f)).2 := by
  have hlabel := List.getElem?_eq_getElem hf
  rw [h.take_counting hlabel]
  refine ⟨h.members, (List.length_set ..).trans h.length, fun k => ?_, fun k hk => ?_,
    h.members_lt⟩
  · by_cases hk : f = k
    · subst hk
      rw [List.getElem?_set_self (h.length ▸ hf), hlabel, List.count_append,
        List.count_singleton_self, Option.map_some]
    · rw [List.getElem?_set_ne hk, h.sequence, List.count_append,
        List.count_singleton, if_neg (by simpa using hk), Nat.add_zero]
  · obtain hk | hk := List.mem_append.mp hk
    · exact h.calls_lt k hk
    · rwa [List.mem_singleton.mp hk]

theorem next (h : l.Follows d) (i : Nat) : (l.enter (.next i)).Follows (d.perform (.next i)).2 := by
  have hfamily := h.family?_eq i
  simp only [enter, Desk.perform]
  cases hg : d.generators[i]? with
  | none =>
    rw [hfamily, hg, Option.bind_none, Option.toList_none, List.append_nil]
    exact h
  | some g =>
    rw [hg, Option.bind_some] at hfamily
    rw [hfamily]
    cases g with
    | counting k => exact (h.counted (h.lt_of_family? hfamily)).see _
    | random label? =>
      rw [Generator.sequence?, Option.toList_none, List.append_nil]
      exact ⟨h.members, h.length, h.sequence, h.calls_lt, h.members_lt⟩

/-- A desk follows the families through one step. -/
theorem perform (h : l.Follows d) (s : Step) : (l.enter s).Follows (d.perform s).2 := by
  cases s with
  | sequential label => exact h.sequential label
  | random label? => exact h.withGenerator (.random label?) nofun
  | copy i => exact h.copy i
  | next i => exact h.next i
  | token text => exact h.see text

/-- A call takes the token of its place. -/
theorem taken (h : l.Follows d) (hc : l.call? s = some c) :
    ∃ same, (d.perform s).1 =
      .taken (token c.label (UInt64.ofNat c.ordinal).toNat) false same := by
  obtain ⟨i, rfl, hfamily, hlabel, hordinal⟩ := call?_eq_some hc
  have hg := h.family?_eq i
  rw [hfamily] at hg
  obtain ⟨g, hg, hsequence⟩ := Option.bind_eq_some_iff.mp hg.symm
  cases g with
  | random label? => cases hsequence
  | counting k =>
    cases hsequence
    simp only [Desk.perform, hg, h.take_counting hlabel, ← hordinal]
    exact ⟨_, rfl⟩

end Families.Follows

/-! ## Runs of a desk -/

/-- The desk at which some steps were carried out. -/
def deskAfter (randomness : Randomness) (steps : List Step) : Desk :=
  steps.foldl (fun d s => (d.perform s).2) { randomness }

theorem deskAfter_concat (randomness : Randomness) (steps : List Step) (s : Step) :
    deskAfter randomness (steps ++ [s]) = ((deskAfter randomness steps).perform s).2 := by
  simp [deskAfter]

theorem follows_deskAfter (randomness : Randomness) (steps : List Step) :
    (Families.ofSteps steps).Follows (deskAfter randomness steps) := by
  induction steps using List.reverseRecOn with
  | nil => exact .new randomness
  | append_singleton steps s ih =>
    rw [Families.ofSteps_concat, deskAfter_concat]
    exact ih.perform s

/-- One more result behind the results so far, and the desk after it. -/
def record (results : List Result × Desk) (s : Step) : List Result × Desk :=
  (results.1 ++ [(results.2.perform s).1], (results.2.perform s).2)

theorem run_eq (randomness : Randomness) (steps : List Step) :
    run randomness steps = (steps.foldl record ([], { randomness })).1 := rfl

theorem run_concat (randomness : Randomness) (steps : List Step) (s : Step) :
    run randomness (steps ++ [s]) =
      run randomness steps ++ [((deskAfter randomness steps).perform s).1] := by
  have hdesk : (steps.foldl record ([], { randomness })).2 = deskAfter randomness steps :=
    (List.foldl_hom Prod.snd fun _ _ => rfl).symm
  rw [run_eq, List.foldl_append, List.foldl_cons, List.foldl_nil, record, hdesk, run_eq]

theorem length_run (randomness : Randomness) (steps : List Step) :
    (run randomness steps).length = steps.length := by
  induction steps using List.reverseRecOn with
  | nil => rfl
  | append_singleton steps s ih =>
    rw [run_concat, List.length_append, List.length_append, ih, List.length_singleton,
      List.length_singleton]

/-- The result of a step is what comes of it at the desk after the steps before. -/
theorem run_getElem? (randomness : Randomness) (steps : List Step) (i : Nat) :
    (run randomness steps)[i]? =
      steps[i]?.map fun s => ((deskAfter randomness (steps.take i)).perform s).1 := by
  induction steps using List.reverseRecOn with
  | nil => rfl
  | append_singleton steps s ih =>
    have hlength := length_run randomness steps
    rw [run_concat]
    obtain hlt | rfl | hgt := Nat.lt_trichotomy i steps.length
    · rw [List.getElem?_append_left (hlength ▸ hlt), ih, List.getElem?_append_left hlt,
        List.take_append_of_le_length (Nat.le_of_lt hlt)]
    · rw [← hlength, List.getElem?_concat_length, hlength, List.getElem?_concat_length,
        List.take_left, Option.map_some]
    · rw [List.getElem?_eq_none, List.getElem?_eq_none, Option.map_none]
      · rwa [List.length_append]
      · rwa [List.length_append, hlength]

/-- A call that a word can count takes the token of its place among the calls to its family. -/
theorem taken_of_callAt? (randomness : Randomness) {steps : List Step} {i : Nat} {c : Call}
    (h : callAt? steps i = some c) (hfits : c.ordinal < UInt64.size) :
    ∃ same, (run randomness steps)[i]? = some (.taken (token c.label c.ordinal) false same) := by
  obtain ⟨s, hs, hcall⟩ := Option.bind_eq_some_iff.mp h
  obtain ⟨same, htaken⟩ := (follows_deskAfter randomness (steps.take i)).taken hcall
  refine ⟨same, ?_⟩
  rw [run_getElem?, hs, Option.map_some, htaken, UInt64.toNat_ofNat_of_lt' hfits]

end TokenDesk

end Leasehold
