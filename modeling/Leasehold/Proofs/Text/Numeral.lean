import Leasehold.Text.Numeral
import Mathlib.Algebra.GroupWithZero.Nat
import Mathlib.Data.List.Induction

/-!
# Numerals are read as they were written

A digit that was written is read as its value, and `value?` and `value` take back what
`inBase` and `decimal` made of a number (`value?_inBase`, `value_decimal`).  A number is
printed as its decimal numeral (`toList_toString`), and the texts that are read as decimal
numerals are those of digits (`value?_ten_eq_some_iff`).  The other facts are about which
characters a numeral has, and how many, and about where a run of such characters ends in a
longer text.
-/

namespace Leasehold

/-! ## Runs of characters at the front of a text -/

namespace Text

theorem takeWhile_append_of {p : Char → Bool} {front rest : List Char}
    (hfront : ∀ c ∈ front, p c = true) (hrest : ∀ c, rest.head? = some c → p c = false) :
    (front ++ rest).takeWhile p = front := by
  rw [List.takeWhile_append_of_pos hfront]
  cases rest with
  | nil => simp
  | cons c rest => simp [hrest c rfl]

theorem dropWhile_append_of {p : Char → Bool} {front rest : List Char}
    (hfront : ∀ c ∈ front, p c = true) (hrest : ∀ c, rest.head? = some c → p c = false) :
    (front ++ rest).dropWhile p = rest := by
  rw [List.dropWhile_append_of_pos hfront]
  cases rest with
  | nil => simp
  | cons c rest => simp [hrest c rfl]

end Text

namespace Numeral

/-! ## Digits -/

theorem hexDigit?_digitChar {d : Nat} (h : d < 16) : hexDigit? (digitChar d) = some d := by
  revert d
  decide

theorem isDigit_digitChar {d : Nat} (h : d < 10) : isDigit (digitChar d) = true := by
  revert d
  decide

theorem digitValue_digitChar {d : Nat} (h : d < 10) : digitValue (digitChar d) = d := by
  revert d
  decide

theorem digit?_digitChar {base d : Nat} (hbase : base ≤ 16) (h : d < base) :
    digit? base (digitChar d) = some d := by
  rw [digit?, hexDigit?_digitChar (Nat.lt_of_lt_of_le h hbase), Option.filter_some]
  simp [h]

theorem digit?_lt {base d : Nat} {c : Char} (h : digit? base c = some d) : d < base := by
  rw [digit?, Option.filter_eq_some_iff] at h
  exact of_decide_eq_true h.2

/-! ## Numerals -/

variable {base n : Nat}

theorem inBase_of_lt (h : n < base) : inBase base n = [digitChar n] := by
  rw [inBase, dif_pos (.inr h)]

theorem inBase_of_le (hbase : 2 ≤ base) (h : base ≤ n) :
    inBase base n = inBase base (n / base) ++ [digitChar (n % base)] := by
  rw [inBase, dif_neg (by omega)]

theorem inBase_ne_nil (base n : Nat) : inBase base n ≠ [] := by
  rw [inBase]
  split <;> simp

/-- The induction over the digits of a number. -/
theorem inBase_induction (hbase : 2 ≤ base) {P : Nat → List Char → Prop}
    (last : ∀ n, n < base → P n [digitChar n])
    (more : ∀ n cs, base ≤ n → P (n / base) cs → P n (cs ++ [digitChar (n % base)])) (n : Nat) :
    P n (inBase base n) := by
  induction n using Nat.strongRecOn with
  | ind n ih =>
    by_cases h : n < base
    · rw [inBase_of_lt h]
      exact last n h
    · have hle := Nat.le_of_not_lt h
      rw [inBase_of_le hbase hle]
      exact more n _ hle (ih _ (Nat.div_lt_self (by omega) hbase))

/-- The characters of a numeral are digits. -/
theorem digits_inBase (hbase : 2 ≤ base) (n : Nat) :
    ∀ c ∈ inBase base n, ∃ d < base, c = digitChar d := by
  refine inBase_induction hbase (P := fun _ cs => ∀ c ∈ cs, ∃ d < base, c = digitChar d)
    (fun n h c hc => ?_) (fun n cs hle ih c hc => ?_) n
  · exact ⟨n, h, List.mem_singleton.mp hc⟩
  · obtain hc | hc := List.mem_append.mp hc
    · exact ih c hc
    · exact ⟨n % base, Nat.mod_lt n (by omega), List.mem_singleton.mp hc⟩

/-- A numeral begins with a zero only if it is the one of zero. -/
theorem exists_head_inBase (hbase : 2 ≤ base) (n : Nat) :
    ∃ d cs, inBase base n = digitChar d :: cs ∧ d < base ∧ (d = 0 → n = 0) := by
  refine inBase_induction hbase
    (P := fun n cs => ∃ d tail, cs = digitChar d :: tail ∧ d < base ∧ (d = 0 → n = 0))
    (fun n h => ⟨n, [], rfl, h, id⟩) (fun n cs hle ih => ?_) n
  obtain ⟨d, tail, rfl, hd, hzero⟩ := ih
  refine ⟨d, _, List.cons_append, hd, fun h => ?_⟩
  have hdiv := hzero h
  rw [Nat.div_eq_zero_iff] at hdiv
  omega

theorem isDigit_of_mem_decimal {n : Nat} {c : Char} (h : c ∈ decimal n) : isDigit c = true := by
  obtain ⟨d, hd, rfl⟩ := digits_inBase (by decide) n c h
  exact isDigit_digitChar hd

theorem length_inBase_le (hbase : 2 ≤ base) {k n : Nat} (h : n < base ^ (k + 1)) :
    (inBase base n).length ≤ k + 1 := by
  induction k generalizing n with
  | zero =>
    rw [inBase_of_lt (by simpa using h)]
    exact Nat.le_refl _
  | succ k ih =>
    by_cases hlt : n < base
    · rw [inBase_of_lt hlt]
      exact Nat.le_add_left _ _
    · rw [inBase_of_le hbase (Nat.le_of_not_lt hlt), List.length_append]
      exact Nat.succ_le_succ (ih (Nat.div_lt_of_lt_mul (by rwa [← Nat.pow_succ'])))

theorem natDigitChar_eq {d : Nat} (h : d < 10) : d.digitChar = digitChar d := by
  revert d
  decide

/-- A number is printed as its decimal numeral. -/
theorem toList_toString (n : Nat) : (toString n).toList = decimal n := by
  rw [Nat.toString_eq_repr, Nat.toList_repr]
  refine inBase_induction (by decide) (P := fun n cs => Nat.toDigits 10 n = cs)
    (fun n h => ?_) (fun n cs hn ih => ?_) n
  · rw [Nat.toDigits_of_lt_base h, natDigitChar_eq h]
  · rw [Nat.toDigits_of_base_le (by decide) hn, ih, natDigitChar_eq (Nat.mod_lt n (by decide))]

/-! ## Reading -/

theorem value?_concat (base : Nat) (cs : List Char) (c : Char) :
    value? base (cs ++ [c]) =
      (value? base cs).bind fun n => (digit? base c).map (base * n + ·) := by
  simp [value?, List.foldlM_append]

theorem value?_inBase (hbase : 2 ≤ base) (hle : base ≤ 16) (n : Nat) :
    value? base (inBase base n) = some n := by
  refine inBase_induction hbase (P := fun n cs => value? base cs = some n)
    (fun n h => ?_) (fun n cs hn ih => ?_) n
  · simp [value?, digit?_digitChar hle h]
  · rw [value?_concat, ih, Option.bind_some, digit?_digitChar hle (Nat.mod_lt n (by omega)),
      Option.map_some, Nat.div_add_mod]

theorem foldlM_digits_lt {cs : List Char} {m n : Nat}
    (h : cs.foldlM (fun n c => (digit? base c).map (base * n + ·)) m = some n) :
    n < (m + 1) * base ^ cs.length := by
  induction cs generalizing m with
  | nil =>
    cases h
    simp
  | cons c cs ih =>
    rw [List.foldlM_cons, Option.bind_eq_bind, Option.bind_eq_some_iff] at h
    obtain ⟨k, hk, hrest⟩ := h
    obtain ⟨d, hd, rfl⟩ := Option.map_eq_some_iff.mp hk
    have hdigit := digit?_lt hd
    have hstep : base * m + d + 1 ≤ (m + 1) * base := by
      rw [Nat.add_mul, Nat.mul_comm m]
      omega
    calc n < (base * m + d + 1) * base ^ cs.length := ih hrest
      _ ≤ (m + 1) * base * base ^ cs.length := Nat.mul_le_mul_right _ hstep
      _ = (m + 1) * base ^ (c :: cs).length := by
        rw [List.length_cons, Nat.pow_succ', Nat.mul_assoc]

/-- A numeral of so many digits is below that power of its base. -/
theorem value?_lt {cs : List Char} (h : value? base cs = some n) : n < base ^ cs.length := by
  have hlt := foldlM_digits_lt h
  rwa [Nat.zero_add, Nat.one_mul] at hlt

theorem value_concat (cs : List Char) (c : Char) :
    value (cs ++ [c]) = 10 * value cs + digitValue c := by
  simp [value]

theorem digit?_ten (c : Char) : digit? 10 c = if isDigit c then some (digitValue c) else none := by
  by_cases hdigit : '0' ≤ c ∧ c ≤ '9'
  · have hle : c.toNat ≤ 57 := hdigit.2
    have hlt : c.toNat - 48 < 10 := by omega
    have hc : isDigit c = true := by simpa [isDigit] using hdigit
    rw [digit?, hexDigit?, if_pos hdigit, if_pos hc, Option.filter_some,
      if_pos (by simpa using hlt), digitValue]
  · have hc : isDigit c = false := by simpa [isDigit] using hdigit
    rw [digit?, hexDigit?, if_neg hdigit, hc]
    -- The letters are worth ten and more.
    split
    next hsmall =>
      have hle : 97 ≤ c.toNat := hsmall.1
      rw [Option.filter_some, if_neg (by simp; omega)]
      rfl
    split
    next hcapital =>
      have hle : 65 ≤ c.toNat := hcapital.1
      rw [Option.filter_some, if_neg (by simp; omega)]
      rfl
    next => rfl

/-- A text is read as a decimal numeral if all of it are digits. -/
theorem value?_ten_eq_some_iff {cs : List Char} {n : Nat} :
    value? 10 cs = some n ↔ (∀ c ∈ cs, isDigit c = true) ∧ value cs = n := by
  induction cs using List.reverseRecOn generalizing n with
  | nil => simp [value?, value]
  | append_singleton cs c ih =>
    rw [value?_concat, value_concat, digit?_ten, Option.bind_eq_some_iff]
    simp only [List.mem_append, List.mem_singleton, or_imp, forall_and, forall_eq]
    cases hc : isDigit c with
    | false => simp
    | true =>
      simp only [if_true, Option.map_some, Option.some.injEq, ih, and_true]
      constructor
      · rintro ⟨m, ⟨hcs, rfl⟩, rfl⟩
        exact ⟨hcs, rfl⟩
      · rintro ⟨hcs, rfl⟩
        exact ⟨_, ⟨hcs, rfl⟩, rfl⟩

theorem value_decimal (n : Nat) : value (decimal n) = n := by
  refine inBase_induction (by decide) (P := fun n cs => value cs = n)
    (fun n h => ?_) (fun n cs hn ih => ?_) n
  · simp [value, digitValue_digitChar h]
  · rw [value_concat, ih, digitValue_digitChar (Nat.mod_lt n (by decide)), Nat.div_add_mod]

end Numeral

end Leasehold
