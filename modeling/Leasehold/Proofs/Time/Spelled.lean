import Leasehold.Proofs.Text.Numeral
import Leasehold.Time.Spelled

/-!
# Durations are read as they were spelled

A group of a spelled duration adds what its units are worth (`SpellsGroup.read`), so a series of
groups is read as the sum of what they are worth, as long as the sum is no longer than the longest
duration (`Spells.read`).  The groups that a duration is spelled with sum up to the duration
(`exists_spells`).  So every duration is read as it was spelled (`ofSpelled?_spelled`): no word on
the way is too small, since every sum on the way is at most the duration itself.
-/

namespace Leasehold.Duration

open Numeral

variable {d d' : Duration} {n m k : Nat} {u : TimeUnit} {letters : List Char} {s : String}

/-! ## Sums that fit -/

/-- What one unit is worth in nanoseconds. -/
def TimeUnit.nanos (u : TimeUnit) : Nat :=
  match u.worth with
  | (n, .seconds) => n * 1000000000
  | (n, .nanoseconds) => n

theorem word?_of_lt (h : n < 18446744073709551616) : word? n = some n := by
  rw [word?, if_pos h]

theorem ofNanos?_eq_some (h : ofNanos? n = some d) :
    n < 18446744073709551616000000000 ∧ d.nanos = n := by
  unfold ofNanos? at h
  split at h
  next hlt =>
    cases h
    exact ⟨hlt, rfl⟩
  next => cases h

/-- A number of seconds is added if the sum is a duration. -/
theorem plus?_seconds (h : ofNanos? (d.nanos + n * 1000000000) = some d') :
    d.plus? n .seconds = some d' := by
  have hlt := (ofNanos?_eq_some h).1
  have hword : d.seconds + n < 18446744073709551616 := by
    simp only [seconds]
    omega
  have hsum : (d.seconds + n) * 1000000000 + d.subsecond = d.nanos + n * 1000000000 := by
    simp only [seconds, subsecond]
    omega
  have hplus : d.plus? n .seconds = (word? (d.seconds + n)).bind fun seconds =>
    ofNanos? (seconds * 1000000000 + d.subsecond) := rfl
  rw [hplus, word?_of_lt hword, Option.bind_some, hsum, h]

/-- Less than a second is added if the sum is a duration. -/
theorem plus?_nanoseconds (h : ofNanos? (d.nanos + n) = some d') (hn : n < 1000000000) :
    d.plus? n .nanoseconds = some d' := by
  have hword : d.subsecond + n < 18446744073709551616 := by
    simp only [subsecond]
    omega
  have hsum : d.seconds * 1000000000 + (d.subsecond + n) = d.nanos + n := by
    simp only [seconds, subsecond]
    omega
  have hplus : d.plus? n .nanoseconds = (word? (d.subsecond + n)).bind fun nanos =>
    ofNanos? (d.seconds * 1000000000 + nanos) := rfl
  rw [hplus, word?_of_lt hword, Option.bind_some, hsum, h]

/-- A group of `n` units is added if the sum is a duration.  Units below a second may only make up
less than a second. -/
theorem plusGroup?_eq_some (hunit : TimeUnit.ofName? (String.ofList letters) = some u)
    (hsmall : u.worth.2 = .nanoseconds → n * u.nanos < 1000000000)
    (h : ofNanos? (d.nanos + n * u.nanos) = some d') :
    d.plusGroup? n none letters = some d' := by
  have hlt := (ofNanos?_eq_some h).1
  cases hworth : u.worth with
  | mk worth grain =>
    cases grain with
    | seconds =>
      have hnanos : n * u.nanos = n * worth * 1000000000 := by
        rw [TimeUnit.nanos, hworth, Nat.mul_assoc]
      rw [hnanos] at h hlt
      have hword : n * worth < 18446744073709551616 := by omega
      simp only [plusGroup?, hunit, hworth, word?_of_lt hword, Option.bind_eq_bind,
        Option.bind_some, plus?_seconds h]
    | nanoseconds =>
      have hnanos : n * u.nanos = n * worth := by rw [TimeUnit.nanos, hworth]
      have hn := hsmall (by rw [hworth])
      rw [hnanos] at h hn
      have hword : n * worth < 18446744073709551616 := by omega
      simp only [plusGroup?, hunit, hworth, word?_of_lt hword, Option.bind_eq_bind,
        Option.bind_some, plus?_nanoseconds h hn]

/-! ## Groups -/

/-- A text is the name of a unit, and is read letter by letter. -/
structure Names (letters : List Char) (u : TimeUnit) : Prop where
  unit : TimeUnit.ofName? (String.ofList letters) = some u
  letters_ne_nil : letters ≠ []
  isLetter : ∀ c ∈ letters,
    isDigit c = false ∧ Text.isBlank c = false ∧ isUnitLetter c = true

instance (letters : List Char) (u : TimeUnit) : Decidable (Names letters u) :=
  decidable_of_iff
    (TimeUnit.ofName? (String.ofList letters) = some u ∧ letters ≠ [] ∧
      (letters.all fun c => !isDigit c && !Text.isBlank c && isUnitLetter c) = true)
    (by
      simp only [List.all_eq_true, Bool.and_eq_true, Bool.not_eq_true', and_assoc]
      exact ⟨fun ⟨hunit, hne, hletter⟩ => ⟨hunit, hne, hletter⟩,
        fun h => ⟨h.unit, h.letters_ne_nil, h.isLetter⟩⟩)

/-- The number of a group is read to its last digit. -/
theorem readGroups?_decimal (first : Bool) (hn : n < 18446744073709551616) (rest : List Char) :
    readGroups? d (.between first) (Numeral.decimal n ++ rest) =
      readGroups? d (.number n) rest := by
  revert hn rest
  refine inBase_induction (by decide) (P := fun n cs => n < 18446744073709551616 → ∀ rest,
    readGroups? d (.between first) (cs ++ rest) = readGroups? d (.number n) rest)
    (fun n h _ rest => ?_) (fun n cs hle ih hn rest => ?_) n
  · simp only [List.singleton_append, readGroups?, readChar?, isDigit_digitChar h, if_true,
      digitValue_digitChar h]
  · have hdigit : n % 10 < 10 := Nat.mod_lt n (by decide)
    have hword : word? (10 * (n / 10) + n % 10) = some n := by
      rw [Nat.div_add_mod, word?_of_lt hn]
    rw [List.append_assoc, ih (by omega)]
    simp only [List.singleton_append, readGroups?, readChar?, isDigit_digitChar hdigit, if_true,
      appendDigit?, digitValue_digitChar hdigit, hword, Option.map_some]

/-- The name of a unit is read to its last letter, from the second one on. -/
theorem readGroups?_letters {cs : List Char} (h : ∀ c ∈ cs,
    isDigit c = false ∧ Text.isBlank c = false ∧ isUnitLetter c = true)
    (seen rest : List Char) :
    readGroups? d (.unit n none seen) (cs ++ rest) =
      readGroups? d (.unit n none (cs.reverse ++ seen)) rest := by
  induction cs generalizing seen with
  | nil => rfl
  | cons c cs ih =>
    obtain ⟨hdigit, hblank, hletter⟩ := h c List.mem_cons_self
    have hrest := ih (fun c hc => h c (List.mem_cons_of_mem _ hc)) (c :: seen)
    simp only [List.cons_append, readGroups?, readChar?, hdigit, hblank, hletter, if_true,
      Bool.false_eq_true, if_false, hrest]
    simp

/-- A group is read to the last letter of its unit. -/
theorem readGroups?_group (h : Names letters u) (first : Bool) (hn : n < 18446744073709551616)
    (rest : List Char) :
    readGroups? d (.between first) (Numeral.decimal n ++ letters ++ rest) =
      readGroups? d (.unit n none letters.reverse) rest := by
  cases letters with
  | nil => exact absurd rfl h.letters_ne_nil
  | cons c cs =>
    obtain ⟨hdigit, hblank, hletter⟩ := h.isLetter c List.mem_cons_self
    have hrest := readGroups?_letters (d := d) (n := n)
      (fun c hc => h.isLetter c (List.mem_cons_of_mem _ hc)) [c] rest
    rw [List.append_assoc, readGroups?_decimal first hn, List.reverse_cons, ← hrest]
    simp only [List.cons_append, readGroups?, readChar?, hdigit, hblank, hletter, if_true,
      Bool.false_eq_true, if_false]

/-- A text spells so many nanoseconds in one group. -/
def SpellsGroup (s : String) (m : Nat) : Prop :=
  ∃ n u letters, s.toList = Numeral.decimal n ++ letters ∧ Names letters u ∧
    m = n * u.nanos ∧ (u.worth.2 = .nanoseconds → m < 1000000000)

/-- A group is read as what it spells: at the end of a text, and before a space and more. -/
theorem SpellsGroup.read (h : SpellsGroup s m) (first : Bool)
    (hsum : ofNanos? (d.nanos + m) = some d') :
    readGroups? d (.between first) s.toList = some d' ∧
      ∀ rest, readGroups? d (.between first) (s.toList ++ ' ' :: rest) =
        readGroups? d' (.between false) rest := by
  obtain ⟨n, u, letters, hs, hnames, rfl, hsmall⟩ := h
  have hlt := (ofNanos?_eq_some hsum).1
  have hn : n < 18446744073709551616 := by
    cases hgrain : u.worth.2 with
    | seconds =>
      have hworth : 1000000000 ≤ u.nanos := by
        cases u <;> first | decide | cases hgrain
      have := Nat.mul_le_mul_left n hworth
      omega
    | nanoseconds =>
      have hpos : 1 ≤ u.nanos := by cases u <;> decide
      have := Nat.mul_le_mul_left n hpos
      have := hsmall hgrain
      omega
  have hgroup := readGroups?_group (d := d) hnames first hn
  have hplus : d.plusGroup? n none letters.reverse.reverse = some d' := by
    rw [List.reverse_reverse, plusGroup?_eq_some hnames.unit hsmall hsum]
  refine ⟨?_, fun rest => ?_⟩
  · rw [hs, ← List.append_nil (Numeral.decimal n ++ letters), hgroup]
    exact hplus
  · rw [hs, hgroup]
    simp only [readGroups?, readChar?, hplus, Option.map_some]
    rfl

/-! ## Series of groups -/

/-- Texts spell so many nanoseconds, one group each. -/
inductive Spells : List String → Nat → Prop where
  | nil : Spells [] 0
  | cons {s m ss k} : SpellsGroup s m → Spells ss k → Spells (s :: ss) (m + k)

theorem Spells.eq_zero (h : Spells [] m) : m = 0 := by
  cases h
  rfl

theorem Spells.append {ss ss' : List String} (h : Spells ss m) (h' : Spells ss' k) :
    Spells (ss ++ ss') (m + k) := by
  induction h with
  | nil => rwa [List.nil_append, Nat.zero_add]
  | cons hgroup _ ih =>
    rw [List.cons_append, Nat.add_assoc]
    exact .cons hgroup ih

/-- A series of groups is read as the sum of what they spell, if that is a duration. -/
theorem Spells.read {ss : List String} (h : Spells ss m) (hne : ss ≠ []) (first : Bool)
    (hsum : ofNanos? (d.nanos + m) = some d') :
    readGroups? d (.between first) (" ".intercalate ss).toList = some d' := by
  rw [String.toList_intercalate]
  induction h generalizing d first with
  | nil => exact absurd rfl hne
  | @cons s m ss k hgroup hrest ih =>
    cases hrest with
    | nil =>
      rw [List.map_singleton, List.intercalate_singleton]
      exact (hgroup.read first hsum).1
    | @cons s' m' ss k' hgroup' hrest' =>
      have hlt := (ofNanos?_eq_some hsum).1
      have hhead : ofNanos? (d.nanos + m) = some ⟨d.nanos + m, by omega⟩ := dif_pos _
      have hmore := (hgroup.read first hhead).2
      rw [← Nat.add_assoc] at hsum
      rw [List.map_cons, List.map_cons, List.intercalate_cons_cons, List.append_assoc]
      exact (hmore _).trans (ih (List.cons_ne_nil _ _) false hsum)

/-! ## Durations -/

/-- The groups of a spelled duration spell what they count. -/
theorem spells_spelledGroup {unit plural : String} (hone : Names unit.toList u)
    (hmany : Names (unit ++ plural).toList u)
    (hsmall : u.worth.2 = .nanoseconds → n * u.nanos < 1000000000) :
    Spells (spelledGroup n unit plural) (n * u.nanos) := by
  unfold spelledGroup
  split
  next hzero =>
    rw [hzero, Nat.zero_mul]
    exact .nil
  next =>
    have hnames : Names (unit ++ if n = 1 then "" else plural).toList u := by
      split
      · rwa [String.append_empty]
      · exact hmany
    refine .cons (m := n * u.nanos) (k := 0) ⟨n, u, _, ?_, hnames, rfl, hsmall⟩ .nil
    simp only [String.toList_append, String.toList_ofList, List.append_assoc]

/-- A duration that is not empty is spelled with groups that sum up to it. -/
theorem exists_spells (h : d.nanos ≠ 0) :
    ∃ ss, d.spelled = " ".intercalate ss ∧ Spells ss d.nanos := by
  have hsum : d.nanos =
      d.seconds / 31557600 * TimeUnit.year.nanos +
      d.seconds % 31557600 / 2630016 * TimeUnit.month.nanos +
      d.seconds % 31557600 % 2630016 / 86400 * TimeUnit.day.nanos +
      d.seconds % 31557600 % 2630016 % 86400 / 3600 * TimeUnit.hour.nanos +
      d.seconds % 31557600 % 2630016 % 86400 % 3600 / 60 * TimeUnit.minute.nanos +
      d.seconds % 31557600 % 2630016 % 86400 % 60 * TimeUnit.second.nanos +
      d.subsecond / 1000000 * TimeUnit.millisecond.nanos +
      d.subsecond / 1000 % 1000 * TimeUnit.microsecond.nanos +
      d.subsecond % 1000 * TimeUnit.nanosecond.nanos := by
    simp only [TimeUnit.nanos, TimeUnit.worth, seconds, subsecond]
    omega
  have hsub : d.subsecond < 1000000000 := Nat.mod_lt _ (by decide)
  refine ⟨_, by rw [spelled, if_neg h], ?_⟩
  rw [hsum]
  refine (((((((Spells.append ?_ ?_).append ?_).append ?_).append ?_).append ?_).append ?_).append
    ?_).append ?_
  · exact spells_spelledGroup (by decide) (by decide) fun h => absurd h (by decide)
  · exact spells_spelledGroup (by decide) (by decide) fun h => absurd h (by decide)
  · exact spells_spelledGroup (by decide) (by decide) fun h => absurd h (by decide)
  · exact spells_spelledGroup (by decide) (by decide) fun h => absurd h (by decide)
  · exact spells_spelledGroup (by decide) (by decide) fun h => absurd h (by decide)
  · exact spells_spelledGroup (by decide) (by decide) fun h => absurd h (by decide)
  · refine spells_spelledGroup (by decide) (by decide) fun _ => ?_
    simp only [TimeUnit.nanos, TimeUnit.worth]
    omega
  · refine spells_spelledGroup (by decide) (by decide) fun _ => ?_
    simp only [TimeUnit.nanos, TimeUnit.worth]
    omega
  · refine spells_spelledGroup (by decide) (by decide) fun _ => ?_
    simp only [TimeUnit.nanos, TimeUnit.worth]
    omega

/-- Every duration is read as it was spelled. -/
theorem ofSpelled?_spelled (d : Duration) : ofSpelled? d.spelled = some d := by
  by_cases hzero : d.nanos = 0
  · have hempty : d = zero := Duration.ext hzero
    rw [hempty]
    rfl
  · obtain ⟨ss, hss, hspells⟩ := exists_spells hzero
    have hne : ss ≠ [] := by
      rintro rfl
      exact hzero hspells.eq_zero
    have hsum : ofNanos? (zero.nanos + d.nanos) = some d := by
      have heq : zero.nanos + d.nanos = d.nanos := Nat.zero_add _
      rw [heq, ofNanos?, dif_pos d.nanos_lt]
    have hread := hspells.read hne true hsum
    rw [hss, ofSpelled?]
    split
    next heq =>
      rw [heq] at hread
      cases hread
    next => exact hread

end Leasehold.Duration
