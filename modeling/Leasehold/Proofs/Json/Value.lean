import Leasehold.Json.Value
import Leasehold.Proofs.Json.Text
import Mathlib.Data.List.Forall2
import Mathlib.Data.List.Induction

/-!
# Values in JSON are read as they were written

`Written cs v` says that the text `cs` is read as the value `v`, whatever comes behind it in an
object.  Texts, numbers and nothing are written so (`written_text`, `written_decimal`,
`written_null`), and an object is if its members are (`written_object`).  A written text that
stands alone is read to its end (`Written.read_eq`).

The reader has fuel for twice the characters of the text.  A written value takes no more than its
own length, since every member has a name.
-/

namespace Leasehold.Json

/-- What may come behind a value: a comma, a closing brace, or nothing. -/
def EndsValue (rest : List Char) : Prop := ∀ c, rest.head? = some c → c = ',' ∨ c = '\x7d'

/-- A text is read as a value, with fuel for its length. -/
def Written (cs : List Char) (v : Value) : Prop :=
  ∀ fuel rest, cs.length ≤ fuel → EndsValue rest →
    readValue (fuel + 1) (cs ++ rest) = (v, some rest)

theorem endsValue_nil : EndsValue [] := by
  intro c hc
  cases hc

theorem endsValue_cons {c : Char} (h : c = ',' ∨ c = '\x7d') (rest : List Char) :
    EndsValue (c :: rest) := by
  intro d hd
  cases hd
  exact h

theorem skipSpaces_cons {c : Char} (h : isSpace c = false) (cs : List Char) :
    skipSpaces (c :: cs) = c :: cs := by
  rw [skipSpaces, List.dropWhile_cons_of_neg (by simp [h])]

/-! ## Numbers -/

namespace Number

variable {rest : List Char}

theorem digits?_append {ds : List Char} (hds : ∀ c ∈ ds, Numeral.isDigit c = true) (hne : ds ≠ [])
    (hrest : ∀ c, rest.head? = some c → Numeral.isDigit c = false) :
    digits? (ds ++ rest) = some (ds.map Numeral.digitValue, rest) := by
  rw [digits?, Text.takeWhile_append_of hds hrest, Text.dropWhile_append_of hds hrest]
  cases ds with
  | nil => exact absurd rfl hne
  | cons d ds => rfl

/-- The digits of a numeral are all kept if its value fits a word. -/
theorem foldl_whole {ds : List Char} (h : Numeral.value ds < Nat.pow 2 64) :
    (ds.map Numeral.digitValue).foldl Kept.whole {} = { value := Numeral.value ds } := by
  induction ds using List.reverseRecOn with
  | nil => rfl
  | append_singleton ds d ih =>
    rw [Numeral.value_concat] at h ⊢
    rw [List.map_append, List.foldl_append, ih (by omega)]
    simp [Kept.whole, Nat.not_le.mpr h]

theorem not_isDigit_of_endsValue (h : EndsValue rest) :
    ∀ c, rest.head? = some c → Numeral.isDigit c = false := by
  intro c hc
  obtain rfl | rfl := h c hc <;> rfl

/-- A whole number below `2 ^ 64` is read as it was written. -/
theorem unsigned?_decimal {n : Nat} (hn : n < Nat.pow 2 64) (hrest : EndsValue rest) :
    unsigned? false (Numeral.decimal n ++ rest) = some (some (.integer n), rest) := by
  have hdigits : digits? (Numeral.decimal n ++ rest) =
      some ((Numeral.decimal n).map Numeral.digitValue, rest) :=
    digits?_append (fun _ => Numeral.isDigit_of_mem_decimal) (Numeral.inBase_ne_nil 10 n)
      (not_isDigit_of_endsValue hrest)
  have hbound : Numeral.value (Numeral.decimal n) < Nat.pow 2 64 := by
    rwa [Numeral.value_decimal]
  have hkept := foldl_whole hbound
  rw [Numeral.value_decimal] at hkept
  have hzeros : ¬ (((Numeral.decimal n).map Numeral.digitValue).head? = some 0 ∧
      1 < ((Numeral.decimal n).map Numeral.digitValue).length) := by
    rintro ⟨hhead, hlength⟩
    obtain ⟨d, cs, heq, hd, hzero⟩ := Numeral.exists_head_inBase (by decide : 2 ≤ 10) n
    rw [Numeral.decimal, heq, List.map_cons, List.head?_cons, Option.some.injEq,
      Numeral.digitValue_digitChar hd] at hhead
    rw [hzero hhead, Numeral.decimal, Numeral.inBase_of_lt (by decide)] at hlength
    exact absurd hlength (by decide)
  simp only [unsigned?, hdigits, Option.bind_eq_bind, Option.bind_some, if_neg hzeros, hkept]
  cases rest with
  | nil => simp [optionalPower?, Kept.number?]
  | cons c rest => obtain rfl | rfl := hrest c rfl <;> simp [optionalPower?, Kept.number?]

end Number

/-! ## Single values -/

theorem written_null : Written ['n', 'u', 'l', 'l'] .null := by
  intro fuel rest _ _
  rw [readValue]
  rfl

theorem written_text (s : String) : Written (textOf s.toList) (.text (some s)) := by
  intro fuel rest _ _
  have htext : textOf s.toList ++ rest = '"' :: (s.toList.flatMap escaped ++ '"' :: rest) := by
    simp [textOf]
  rw [htext, readValue, skipSpaces_cons rfl]
  simp only [readText, text?_written, Option.map_some, String.ofList_toList]

/-- What begins with a digit is a number. -/
theorem readValue_digit {c : Char} (h : Numeral.isDigit c = true) (fuel : Nat) (cs : List Char) :
    readValue (fuel + 1) (c :: cs) = readNumber (c :: cs) := by
  have hspace : isSpace c = false := by
    refine Bool.eq_false_iff.mpr fun hspace => ?_
    simp only [isSpace, List.contains_eq_mem, decide_eq_true_eq, List.mem_cons, List.not_mem_nil,
      or_false] at hspace
    obtain rfl | rfl | rfl | rfl := hspace <;> cases h
  rw [readValue, skipSpaces_cons hspace]
  split
  case h_7 => rfl
  all_goals
    next heq =>
      cases heq
      cases h

theorem written_decimal {n : Nat} (h : n < Nat.pow 2 64) :
    Written (Numeral.decimal n) (.number (some (.integer n))) := by
  intro fuel rest _ hrest
  obtain ⟨d, tail, heq, hd, -⟩ := Numeral.exists_head_inBase (by decide : 2 ≤ 10) n
  have hread := Number.unsigned?_decimal h hrest
  rw [Numeral.decimal, heq, List.cons_append] at hread ⊢
  rw [readValue_digit (Numeral.isDigit_digitChar hd), readNumber]
  have hsign : Number.ofText? (Numeral.digitChar d :: (tail ++ rest)) =
      Number.unsigned? false (Numeral.digitChar d :: (tail ++ rest)) := by
    rw [Number.ofText?]
    intro cs hminus
    have hdigit := Numeral.isDigit_digitChar hd
    rw [(List.cons.inj hminus).1] at hdigit
    cases hdigit
  rw [hsign, hread]

/-! ## Objects -/

/-- A member of an object and how it is written. -/
structure WrittenMember (field : String × List Char) (member : Option String × Value) : Prop where
  name : member.1 = some field.1
  value : Written field.2 member.2

/-- A member is read, and others after a comma. -/
theorem readMembers_member {field : String × List Char} {member : Option String × Value}
    (h : WrittenMember field member) {c : Char} (hc : c = ',' ∨ c = '\x7d') {fuel : Nat}
    (hfuel : (memberOf field).length ≤ fuel) (rest : List Char) :
    readMembers (fuel + 1) (memberOf field ++ c :: rest) =
      if c = ',' then (member :: (readMembers fuel rest).1, (readMembers fuel rest).2)
      else ([member], some rest) := by
  have htext : memberOf field ++ c :: rest =
      '"' :: (field.1.toList.flatMap escaped ++ '"' :: ':' :: (field.2 ++ c :: rest)) := by
    simp [memberOf, textOf]
  have hlength : field.2.length + 3 ≤ (memberOf field).length := by
    simp only [memberOf, textOf, List.length_append, List.length_cons, List.length_nil]
    omega
  obtain ⟨fuel, rfl⟩ : ∃ n, fuel = n + 1 := ⟨fuel - 1, by omega⟩
  have hvalue := h.value fuel (c :: rest) (by omega) (endsValue_cons hc rest)
  have hmember : (some (String.ofList field.1.toList), member.2) = member := by
    rw [String.ofList_toList, ← h.name]
  rw [htext, readMembers, skipSpaces_cons rfl]
  simp only [text?_written, skipSpaces_cons (c := ':') rfl, hvalue, hmember]
  obtain rfl | rfl := hc
  · rw [skipSpaces_cons rfl, if_pos rfl]
    rfl
  · rw [skipSpaces_cons rfl, if_neg (by decide)]
    rfl

/-- The members of an object are read up to the closing brace. -/
theorem readMembers_written {fields : List (String × List Char)}
    {members : List (Option String × Value)} (h : List.Forall₂ WrittenMember fields members)
    (hne : fields ≠ []) {fuel : Nat} (rest : List Char)
    (hfuel : ([','].intercalate (fields.map memberOf)).length ≤ fuel) :
    readMembers (fuel + 1) ([','].intercalate (fields.map memberOf) ++ '\x7d' :: rest) =
      (members, some rest) := by
  induction h generalizing fuel with
  | nil => exact absurd rfl hne
  | @cons field member fields members hmember hmembers ih =>
    cases hmembers with
    | nil =>
      simp only [List.map_cons, List.map_nil, List.intercalate_singleton] at hfuel ⊢
      rw [readMembers_member hmember (.inr rfl) hfuel, if_neg (by decide)]
    | @cons next member' fields members hmember' hmembers' =>
      simp only [List.map_cons, List.intercalate_cons_cons, List.append_assoc, List.cons_append,
        List.nil_append, List.length_append, List.length_cons] at hfuel ih ⊢
      obtain ⟨fuel, rfl⟩ : ∃ n, fuel = n + 1 := ⟨fuel - 1, by omega⟩
      rw [readMembers_member hmember (.inl rfl) (by omega), if_pos rfl,
        ih (List.cons_ne_nil _ _) (by omega)]

/-- An object of written members is written. -/
theorem written_object {fields : List (String × List Char)}
    {members : List (Option String × Value)} (h : List.Forall₂ WrittenMember fields members)
    (hne : fields ≠ []) : Written (objectOf fields) (.object members true) := by
  intro fuel rest hfuel _
  have hlength : (objectOf fields).length =
      ([','].intercalate (fields.map memberOf)).length + 2 := by
    simp [objectOf]
  have htext : objectOf fields ++ rest =
      '\x7b' :: ([','].intercalate (fields.map memberOf) ++ '\x7d' :: rest) := by
    simp [objectOf]
  obtain ⟨fuel, rfl⟩ : ∃ n, fuel = n + 1 := ⟨fuel - 1, by omega⟩
  have hsize : ([','].intercalate (fields.map memberOf)).length ≤ fuel := by omega
  have hmembers := readMembers_written h hne rest hsize
  have hquote : ∃ cs, [','].intercalate (fields.map memberOf) ++ '\x7d' :: rest = '"' :: cs := by
    cases fields with
    | nil => exact absurd rfl hne
    | cons field fields => cases fields <;> exact ⟨_, rfl⟩
  obtain ⟨cs, hcs⟩ := hquote
  rw [hcs] at hmembers htext
  rw [htext, readValue, skipSpaces_cons rfl]
  simp only [skipSpaces_cons (c := '"') rfl, hmembers, Option.isSome_some]
  rfl

/-! ## Whole texts -/

/-- A written text that stands alone is read to its end. -/
theorem Written.read_eq {cs : List Char} {v : Value} (h : Written cs v) : read cs = (v, true) := by
  have hread := h (2 * cs.length + 1) [] (by omega) endsValue_nil
  rw [List.append_nil] at hread
  rw [read, hread]
  rfl

end Leasehold.Json
