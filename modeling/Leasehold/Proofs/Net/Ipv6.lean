import Leasehold.Net.Ipv6
import Leasehold.Proofs.Text.Numeral

/-!
# Addresses of the sixth version are read as they were written

A text is read as an address of eight groups of sixteen bits (`valid_of_ofText?`), and
the text of such an address is read as the address (`ofText?_text`).

The text leaves out a run of zeros, so two things have to be shown: the left out run is
one of zeros (`eq_of_longestRun`), and the two colons in its place are the first that
stand together (`splitAtGap_joined`).
-/

namespace Leasehold.Ipv6

open Numeral

/-- An address of eight groups of sixteen bits. -/
structure Valid (a : Ipv6) : Prop where
  length : a.groups.length = 8
  group : ∀ n ∈ a.groups, n < 65536

/-! ## Groups -/

/-- The characters of a group are hexadecimal digits. -/
theorem digits_group {n : Nat} {c : Char} (h : c ∈ inBase 16 n) : ∃ d < 16, c = digitChar d :=
  digits_inBase (by decide) n c h

theorem ne_of_mem_group {n : Nat} {c x : Char} (h : c ∈ inBase 16 n)
    (hx : ∀ d < 16, digitChar d ≠ x) : c ≠ x := by
  obtain ⟨d, hd, rfl⟩ := digits_group h
  exact hx d hd

theorem group?_inBase {n : Nat} (h : n < 65536) : group? (inBase 16 n) = some n := by
  have hlength := length_inBase_le (k := 3) (show 2 ≤ 16 by decide) h
  have hne := inBase_ne_nil 16 n
  rw [group?, if_neg (by simp only [hne, false_or]; omega)]
  exact value?_inBase (by decide) (by decide) n

theorem group?_lt {cs : List Char} {n : Nat} (h : group? cs = some n) : n < 65536 := by
  unfold group? at h
  split at h
  · cases h
  next hlength =>
    have hlt := value?_lt h
    have hle : 16 ^ cs.length ≤ 16 ^ 4 := Nat.pow_le_pow_right (by decide) (by omega)
    omega

/-! ## Runs of zeros -/

theorem eq_of_zerosInFront (l : List Nat) :
    l = List.replicate (zerosInFront l) 0 ++ l.drop (zerosInFront l) := by
  induction l with
  | nil => rfl
  | cons n l ih =>
    by_cases hn : n = 0
    · subst hn
      have hcount : zerosInFront (0 :: l) = zerosInFront l + 1 := by simp [zerosInFront]
      rw [hcount, List.replicate_succ, List.cons_append, List.drop_succ_cons, ← ih]
    · have hcount : zerosInFront (n :: l) = 0 := by simp [zerosInFront, hn]
      rw [hcount]
      rfl

/-- What is left out of a list is a run of zeros. -/
theorem eq_of_longestRun (l : List Nat) :
    l = l.take (longestRun l).1 ++ List.replicate (longestRun l).2 0 ++
      l.drop ((longestRun l).1 + (longestRun l).2) := by
  induction l with
  | nil => rfl
  | cons n l ih =>
    by_cases h : zerosInFront (n :: l) ≠ 0 ∧ (longestRun l).2 ≤ zerosInFront (n :: l)
    · have hrun : longestRun (n :: l) = (0, zerosInFront (n :: l)) := by
        simp only [longestRun]
        rw [if_pos h]
      rw [hrun, Nat.zero_add]
      exact eq_of_zerosInFront (n :: l)
    · have hrun : longestRun (n :: l) = ((longestRun l).1 + 1, (longestRun l).2) := by
        simp only [longestRun]
        rw [if_neg h]
      rw [hrun, List.take_succ_cons, Nat.add_right_comm, List.drop_succ_cons, List.cons_append,
        List.cons_append, ← ih]

/-! ## Groups with colons between -/

variable {l r : List Nat}

theorem joined_cons_cons (n m : Nat) (l : List Nat) :
    joined (n :: m :: l) = inBase 16 n ++ ':' :: joined (m :: l) := by
  rw [joined, List.map_cons, List.map_cons, List.intercalate_cons_cons, List.append_assoc]
  rfl

theorem joined_singleton (n : Nat) : joined [n] = inBase 16 n := by
  simp [joined]

theorem joined_cons (n : Nat) (l : List Nat) :
    ∃ c rest, c ≠ ':' ∧ joined (n :: l) = c :: rest := by
  have hfront : ∃ rest, joined (n :: l) = inBase 16 n ++ rest := by
    cases l with
    | nil => exact ⟨[], by rw [joined_singleton, List.append_nil]⟩
    | cons m l => exact ⟨_, joined_cons_cons n m l⟩
  obtain ⟨rest, hrest⟩ := hfront
  cases hgroup : inBase 16 n with
  | nil => exact absurd hgroup (inBase_ne_nil 16 n)
  | cons c cs =>
    refine ⟨c, cs ++ rest, ne_of_mem_group (hgroup ▸ List.mem_cons_self) (by decide), ?_⟩
    rw [hrest, hgroup, List.cons_append]

/-- A text that begins with a group does not begin with a colon. -/
theorem head?_joined_append_ne (n : Nat) (l : List Nat) (more : List Char) :
    (joined (n :: l) ++ more).head? ≠ some ':' := by
  obtain ⟨c, rest, hc, hjoined⟩ := joined_cons n l
  rw [hjoined]
  simpa using hc

theorem head?_joined_ne (n : Nat) (l : List Nat) : (joined (n :: l)).head? ≠ some ':' := by
  have hne := head?_joined_append_ne n l []
  rwa [List.append_nil] at hne

theorem splitOn_joined (h : l ≠ []) : (joined l).splitOn ':' = l.map (inBase 16) := by
  refine List.splitOn_intercalate ':' (fun cs hcs hmem => ?_) (by simpa using h)
  obtain ⟨n, -, rfl⟩ := List.mem_map.mp hcs
  exact ne_of_mem_group hmem (by decide) rfl

theorem mapM_group? (h : ∀ n ∈ l, n < 65536) : (l.map (inBase 16)).mapM group? = some l := by
  induction l with
  | nil => rfl
  | cons n l ih =>
    obtain ⟨hn, hl⟩ := List.forall_mem_cons.mp h
    rw [List.map_cons, List.mapM_cons, group?_inBase hn, ih hl]
    rfl

theorem groupsOf?_map (h : ∀ n ∈ l, n < 65536) : groupsOf? (l.map (inBase 16)) = some l := by
  induction l with
  | nil => rfl
  | cons n l ih =>
    obtain ⟨hn, hl⟩ := List.forall_mem_cons.mp h
    cases l with
    | nil =>
      have hdot : (inBase 16 n).contains '.' = false := by
        rw [List.contains_eq_mem, decide_eq_false_iff_not]
        exact fun hmem => ne_of_mem_group hmem (by decide) rfl
      simp only [List.map_cons, List.map_nil, groupsOf?, hdot, group?_inBase hn]
      rfl
    | cons m l =>
      have hrest := ih hl
      simp only [List.map_cons] at hrest ⊢
      rw [groupsOf?, group?_inBase hn, hrest]
      · rfl
      · exact fun hnil => nomatch hnil

/-! ## The gap -/

theorem splitAtGap_cons {c : Char} {cs : List Char} (h : ¬ (c = ':' ∧ cs.head? = some ':')) :
    splitAtGap (c :: cs) = (splitAtGap cs).map fun (front, back) => (c :: front, back) := by
  rw [splitAtGap]
  rintro rest rfl rfl
  exact h ⟨rfl, rfl⟩

theorem splitAtGap_append {cs : List Char} (h : ∀ c ∈ cs, c ≠ ':') (rest : List Char) :
    splitAtGap (cs ++ rest) = (splitAtGap rest).map fun (front, back) => (cs ++ front, back) := by
  induction cs with
  | nil => simp
  | cons c cs ih =>
    obtain ⟨hc, hcs⟩ := List.forall_mem_cons.mp h
    rw [List.cons_append, splitAtGap_cons fun hcolon => hc hcolon.1, ih hcs, Option.map_map]
    rfl

theorem splitAtGap_group (n : Nat) (rest : List Char) :
    splitAtGap (inBase 16 n ++ rest) =
      (splitAtGap rest).map fun (front, back) => (inBase 16 n ++ front, back) :=
  splitAtGap_append (fun _ hc => ne_of_mem_group hc (by decide)) rest

theorem splitAtGap_joined_eq_none (l : List Nat) : splitAtGap (joined l) = none := by
  induction l with
  | nil => rfl
  | cons n l ih =>
    cases l with
    | nil =>
      have hgap := splitAtGap_group n []
      rw [List.append_nil] at hgap
      rw [joined_singleton, hgap]
      rfl
    | cons m l =>
      rw [joined_cons_cons, splitAtGap_group,
        splitAtGap_cons fun hcolon => head?_joined_ne m l hcolon.2, ih]
      rfl

/-- The colons in the place of a run are the first that stand together. -/
theorem splitAtGap_joined (l : List Nat) (back : List Char) :
    splitAtGap (joined l ++ ':' :: ':' :: back) = some (joined l, back) := by
  induction l with
  | nil => rfl
  | cons n l ih =>
    cases l with
    | nil =>
      rw [joined_singleton, splitAtGap_group, splitAtGap]
      simp
    | cons m l =>
      rw [joined_cons_cons, List.append_assoc, splitAtGap_group, List.cons_append,
        splitAtGap_cons fun hcolon => head?_joined_append_ne m l _ hcolon.2, ih]
      rfl

/-! ## Whole addresses -/

theorem side?_joined (h : ∀ n ∈ l, n < 65536) (dots : Bool) : side? (joined l) dots = some l := by
  cases l with
  | nil => rfl
  | cons n l =>
    obtain ⟨c, rest, -, hjoined⟩ := joined_cons n l
    rw [side?, if_neg (by simp [hjoined]), splitOn_joined (by simp)]
    cases dots with
    | true => exact groupsOf?_map h
    | false => exact mapM_group? h

/-- The text of an address is read as the address. -/
theorem ofText?_text {a : Ipv6} (ha : a.Valid) : ofText? a.text = some a := by
  obtain ⟨groups⟩ := a
  obtain ⟨hlength, hgroup⟩ := ha
  simp only at hlength hgroup
  simp only [text]
  split
  · have hne : groups ≠ [] := by
      rintro rfl
      cases hlength
    simp [ofText?, splitAtGap_joined_eq_none, splitOn_joined hne, groupsOf?_map hgroup, hlength]
  · have hgroups := eq_of_longestRun groups
    have hfront := side?_joined (fun n hn => hgroup n (List.mem_of_mem_take hn)) false
      (l := groups.take (longestRun groups).1)
    have hback := side?_joined (fun n hn => hgroup n (List.mem_of_mem_drop hn)) true
      (l := groups.drop ((longestRun groups).1 + (longestRun groups).2))
    have htotal := congrArg List.length hgroups
    simp only [List.length_append, List.length_replicate] at htotal
    have hzeros : 8 - ((groups.take (longestRun groups).1).length +
        (groups.drop ((longestRun groups).1 + (longestRun groups).2)).length) =
          (longestRun groups).2 := by
      omega
    have hsome : ¬ (longestRun groups).2 = 0 := by omega
    rw [List.append_assoc, ofText?]
    simp only [List.cons_append, List.nil_append, splitAtGap_joined, hfront, hback, hzeros,
      Option.bind_eq_bind, Option.bind_some, hsome, if_false]
    rw [← hgroups]

/-! ## What is read -/

theorem mem_of_mapM_eq_some {α β : Type} {f : α → Option β} {xs : List α} {ys : List β}
    (h : xs.mapM f = some ys) : ∀ y ∈ ys, ∃ x, f x = some y := by
  induction xs generalizing ys with
  | nil =>
    cases h
    simp
  | cons x xs ih =>
    rw [List.mapM_cons, Option.bind_eq_bind, Option.bind_eq_some_iff] at h
    obtain ⟨y, hy, h⟩ := h
    obtain ⟨zs, hzs, h⟩ := Option.bind_eq_some_iff.mp h
    cases h
    exact List.forall_mem_cons.mpr ⟨⟨x, hy⟩, ih hzs⟩

theorem byte?_le {cs : List Char} {n : Nat} (h : byte? cs = some n) : n ≤ 255 := by
  unfold byte? at h
  split at h
  · cases h
  · exact of_decide_eq_true (Option.filter_eq_some_iff.mp h).2

theorem dotted?_lt {cs : List Char} (h : dotted? cs = some l) : ∀ n ∈ l, n < 65536 := by
  unfold dotted? at h
  split at h
  next a b c d hbytes =>
    have hle : ∀ n ∈ [a, b, c, d], n ≤ 255 := fun n hn =>
      byte?_le (mem_of_mapM_eq_some hbytes n hn).choose_spec
    cases h
    simp only [List.forall_mem_cons, List.not_mem_nil, false_imp_iff, implies_true, and_true]
      at hle ⊢
    omega
  · cases h

theorem mapM_group?_lt {ps : List (List Char)} (h : ps.mapM group? = some l) :
    ∀ n ∈ l, n < 65536 := by
  intro n hn
  obtain ⟨cs, hcs⟩ := mem_of_mapM_eq_some h n hn
  exact group?_lt hcs

theorem groupsOf?_lt {ps : List (List Char)} (h : groupsOf? ps = some l) :
    ∀ n ∈ l, n < 65536 := by
  induction ps generalizing l with
  | nil =>
    cases h
    simp
  | cons piece ps ih =>
    cases ps with
    | nil =>
      rw [groupsOf?] at h
      split at h
      · exact dotted?_lt h
      · obtain ⟨n, hn, rfl⟩ := Option.map_eq_some_iff.mp h
        simpa using group?_lt hn
    | cons q ps =>
      rw [groupsOf?, Option.bind_eq_bind, Option.bind_eq_some_iff] at h
      · obtain ⟨n, hn, h⟩ := h
        obtain ⟨rest, hrest, rfl⟩ := Option.map_eq_some_iff.mp h
        exact List.forall_mem_cons.mpr ⟨group?_lt hn, ih hrest⟩
      · exact fun hnil => nomatch hnil

theorem side?_lt {cs : List Char} {dots : Bool} (h : side? cs dots = some l) :
    ∀ n ∈ l, n < 65536 := by
  unfold side? at h
  split at h
  · cases h
    simp
  split at h
  · exact groupsOf?_lt h
  · exact mapM_group?_lt h

/-- What is read is an address. -/
theorem valid_of_ofText? {cs : List Char} {a : Ipv6} (h : ofText? cs = some a) : a.Valid := by
  unfold ofText? at h
  split at h
  · obtain ⟨l, hl, rfl⟩ := Option.map_eq_some_iff.mp h
    obtain ⟨hgroups, hlength⟩ := Option.filter_eq_some_iff.mp hl
    exact ⟨of_decide_eq_true hlength, groupsOf?_lt hgroups⟩
  next front back _ =>
    obtain ⟨l, hl, h⟩ := Option.bind_eq_some_iff.mp h
    obtain ⟨r, hr, h⟩ := Option.bind_eq_some_iff.mp h
    simp only at h
    split at h
    · cases h
    next hzeros =>
      cases h
      refine ⟨?_, fun n hn => ?_⟩
      · simp only [List.length_append, List.length_replicate]
        omega
      · simp only [List.mem_append, List.mem_replicate] at hn
        obtain (hn | ⟨-, rfl⟩) | hn := hn
        · exact side?_lt hl n hn
        · decide
        · exact side?_lt hr n hn

/-! ## The characters of an address -/

theorem mem_joined {c : Char} (h : c ∈ joined l) : c = ':' ∨ ∃ d < 16, c = digitChar d := by
  induction l with
  | nil => cases h
  | cons n l ih =>
    cases l with
    | nil =>
      rw [joined_singleton] at h
      exact .inr (digits_group h)
    | cons m l =>
      rw [joined_cons_cons, List.mem_append, List.mem_cons] at h
      obtain h | rfl | h := h
      · exact .inr (digits_group h)
      · exact .inl rfl
      · exact ih h

/-- The characters of the text of an address are digits and colons. -/
theorem mem_text {a : Ipv6} {c : Char} (h : c ∈ a.text) : c = ':' ∨ ∃ d < 16, c = digitChar d := by
  simp only [text] at h
  split at h
  · exact mem_joined h
  · simp only [List.mem_append, List.mem_cons, List.not_mem_nil, or_false] at h
    obtain (h | rfl | rfl) | h := h
    · exact mem_joined h
    · exact .inl rfl
    · exact .inl rfl
    · exact mem_joined h

end Leasehold.Ipv6
