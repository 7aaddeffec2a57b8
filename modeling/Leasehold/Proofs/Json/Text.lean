import Leasehold.Json.Text
import Leasehold.Proofs.Text.Numeral

/-!
# Texts in JSON are read as they were written

A character inside quotes is read back alone, whatever follows it (`units?_escaped`), and so a
written text is read back up to its closing quote (`text?_written`).  No character is a surrogate,
so the code points of a written text never pair up.
-/

namespace Leasehold.Json

/-! ## One character -/

/-- A control is read back by its number. -/
theorem fourDigits?_control {n : Nat} (h : n < 0x20) :
    fourDigits? '0' '0' (Numeral.digitChar (n / 16)) (Numeral.digitChar (n % 16)) = some n := by
  revert n
  decide

/-- An escape of one letter is read as the character that it stands for. -/
theorem units?_letter {c d : Char} (h : letterEscape? c = some d) (rest : List Char) :
    units? ('\\' :: c :: rest) = (units? rest).map fun (ns, rest) => (d.toNat :: ns, rest) := by
  rw [units?.eq_def]
  split
  next heq => cases heq
  next heq => cases heq
  next heq =>
    cases heq
    cases h
  next heq =>
    cases heq
    rw [h]
    cases units? rest <;> rfl
  next hother heq =>
    cases heq
    exact (hother c rest rfl rfl).elim

/-- A character that needs no escape is read back as it is. -/
theorem units?_plain {c : Char} (hquote : c ≠ '"') (hslash : c ≠ '\\') (h : ¬ c.toNat < 0x20)
    (rest : List Char) :
    units? (c :: rest) = (units? rest).map fun (ns, rest) => (c.toNat :: ns, rest) := by
  rw [units?.eq_def]
  split
  next heq => cases heq
  next heq => exact absurd (List.cons.inj heq).1 hquote
  next heq => exact absurd (List.cons.inj heq).1 hslash
  next heq => exact absurd (List.cons.inj heq).1 hslash
  next heq =>
    cases heq
    rw [if_neg (not_or.mpr ⟨h, hslash⟩)]

/-- A written character is read back, whatever follows it. -/
theorem units?_escaped (c : Char) (rest : List Char) :
    units? (escaped c ++ rest) = (units? rest).map fun (ns, rest) => (c.toNat :: ns, rest) := by
  unfold escaped
  split
  case h_8 hquote hslash _ _ _ _ _ =>
    split
    next hcontrol =>
      simp only [List.cons_append, List.nil_append, units?, fourDigits?_control hcontrol]
      cases units? rest <;> rfl
    next hplain => exact units?_plain hquote hslash hplain rest
  all_goals exact units?_letter rfl rest

/-! ## Whole texts -/

theorem units?_written (cs rest : List Char) :
    units? (cs.flatMap escaped ++ '"' :: rest) = some (cs.map Char.toNat, rest) := by
  induction cs with
  | nil => rw [List.flatMap_nil, List.nil_append, units?, List.map_nil]
  | cons c cs ih =>
    rw [List.flatMap_cons, List.append_assoc, units?_escaped, ih, Option.map_some, List.map_cons]

theorem not_surrogate (c : Char) : isHigh c.toNat = false ∧ isLow c.toNat = false := by
  have h : c.toNat < 0xD800 ∨ 0xDFFF < c.toNat ∧ c.toNat < 0x110000 := c.valid
  simp only [isHigh, isLow, Bool.and_eq_false_iff, decide_eq_false_iff_not]
  omega

/-- No character is a surrogate, so every one stands for itself. -/
theorem joined?_toNat (cs : List Char) : joined? (cs.map Char.toNat) = some cs := by
  induction cs with
  | nil => rfl
  | cons c cs ih =>
    obtain ⟨hhigh, hlow⟩ := not_surrogate c
    cases cs with
    | nil => simp [joined?, hhigh, hlow]
    | cons d cs =>
      rw [List.map_cons] at ih
      simp [joined?, hhigh, hlow, ih]

/-- A written text is read back, with what follows its closing quote. -/
theorem text?_written (cs rest : List Char) :
    text? (cs.flatMap escaped ++ '"' :: rest) = some (some cs, rest) := by
  simp only [text?, units?_written, Option.map_some, joined?_toNat]

end Leasehold.Json
