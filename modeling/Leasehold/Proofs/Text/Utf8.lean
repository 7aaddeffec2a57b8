import Leasehold.Text.Utf8

/-!
# Texts and their octets

`decode` takes back what `encode` made of a text (`decode_encode`) and accepts nothing
else (`encode_of_decode`).  Both go character by character: `decode_encodeChar` says what
becomes of the octets of one character, and `begins_of_decode` that whatever is taken off
the front of a list is the form of a character.
-/

namespace Leasehold.Utf8

/-! ## Bits -/

theorem toNat_ofNat {n : Nat} (h : n.isValidChar) : (Char.ofNat n).toNat = n := by
  rw [Char.ofNat, dif_pos h]
  rfl

theorem tail?_of_lt {n : Nat} (h : n < 64) : tail? (0x80 + n) = some n := by
  rw [tail?, if_pos (by omega), Nat.add_sub_cancel_left]

theorem tail?_eq_some {b n : Nat} (h : tail? b = some n) : b = 0x80 + n ∧ n < 64 := by
  unfold tail? at h
  split at h
  next hb =>
    have hn := Option.some.inj h
    omega
  · cases h

theorem charAbove?_toNat {least : Nat} (c : Char) (h : least ≤ c.toNat) :
    charAbove? least c.toNat = some c := by
  rw [charAbove?, if_pos ⟨h, c.valid⟩, Char.ofNat_toNat]

theorem charAbove?_eq_some {least n : Nat} {c : Char} (h : charAbove? least n = some c) :
    c.toNat = n ∧ least ≤ n := by
  unfold charAbove? at h
  split at h
  next hn =>
    cases h
    exact ⟨toNat_ofNat hn.2, hn.1⟩
  · cases h

theorem toNat_lt (c : Char) : c.toNat < 0x110000 := by
  obtain h | h := c.valid
  · exact Nat.lt_trans h (by decide)
  · exact h.2

/-! ## Forms of one to four octets -/

variable {a b c d : Nat} {bs : List Nat}

theorem decode_one (h : a < 0x80) :
    decode (a :: bs) = (decode bs).map (Char.ofNat a :: ·) := by
  rw [decode.eq_def]
  simp only [h, if_true]

theorem decode_two (ha : 0xC0 ≤ a ∧ a < 0xE0) :
    decode (a :: b :: bs) = (tail? b).bind fun b =>
      (charAbove? 0x80 ((a - 0xC0) * 64 + b)).bind fun c => (decode bs).map (c :: ·) := by
  have hnot : ¬ a < 0x80 := by omega
  rw [decode.eq_def]
  simp only [hnot, ha, if_false, and_self, if_true]
  rfl

theorem decode_three (ha : 0xE0 ≤ a ∧ a < 0xF0) :
    decode (a :: b :: c :: bs) = (tail? b).bind fun b => (tail? c).bind fun c =>
      (charAbove? 0x800 ((a - 0xE0) * 4096 + b * 64 + c)).bind fun c =>
        (decode bs).map (c :: ·) := by
  have hnot : ¬ a < 0x80 := by omega
  have hnot' : ¬ (0xC0 ≤ a ∧ a < 0xE0) := by omega
  rw [decode.eq_def]
  simp only [hnot, hnot', ha, if_false, and_self, if_true]
  rfl

theorem decode_four (ha : 0xF0 ≤ a ∧ a < 0xF8) :
    decode (a :: b :: c :: d :: bs) = (tail? b).bind fun b => (tail? c).bind fun c =>
      (tail? d).bind fun d =>
        (charAbove? 0x10000 ((a - 0xF0) * 262144 + b * 4096 + c * 64 + d)).bind fun c =>
          (decode bs).map (c :: ·) := by
  have hnot : ¬ a < 0x80 := by omega
  have hnot' : ¬ (0xC0 ≤ a ∧ a < 0xE0) := by omega
  have hnot'' : ¬ (0xE0 ≤ a ∧ a < 0xF0) := by omega
  rw [decode.eq_def]
  simp only [hnot, hnot', hnot'', ha, if_false, and_self, if_true]
  rfl

/-! ## One character -/

/-- The octets of a character are read as that character. -/
theorem decode_encodeChar (c : Char) (bs : List Nat) :
    decode (encodeChar c ++ bs) = (decode bs).map (c :: ·) := by
  have hlt := toNat_lt c
  have htail : ∀ n, tail? (0x80 + n % 64) = some (n % 64) := fun n => tail?_of_lt (by omega)
  unfold encodeChar
  by_cases h₁ : c.toNat < 0x80
  · simp only [h₁, if_true, List.singleton_append]
    rw [decode_one h₁, Char.ofNat_toNat]
  by_cases h₂ : c.toNat < 0x800
  · have hnumber : (0xC0 + c.toNat / 64 - 0xC0) * 64 + c.toNat % 64 = c.toNat := by omega
    simp only [h₁, h₂, if_true, if_false, List.cons_append, List.nil_append]
    rw [decode_two (by omega), htail, Option.bind_some, hnumber,
      charAbove?_toNat c (by omega), Option.bind_some]
  by_cases h₃ : c.toNat < 0x10000
  · have hnumber : (0xE0 + c.toNat / 4096 - 0xE0) * 4096 + c.toNat / 64 % 64 * 64 + c.toNat % 64 =
        c.toNat := by omega
    simp only [h₁, h₂, h₃, if_true, if_false, List.cons_append, List.nil_append]
    rw [decode_three (by omega), htail, Option.bind_some, htail, Option.bind_some, hnumber,
      charAbove?_toNat c (by omega), Option.bind_some]
  · have hnumber : (0xF0 + c.toNat / 262144 - 0xF0) * 262144 + c.toNat / 4096 % 64 * 4096 +
        c.toNat / 64 % 64 * 64 + c.toNat % 64 = c.toNat := by omega
    simp only [h₁, h₂, h₃, if_false, List.cons_append, List.nil_append]
    rw [decode_four (by omega), htail, Option.bind_some, htail, Option.bind_some, htail,
      Option.bind_some, hnumber, charAbove?_toNat c (by omega), Option.bind_some]

theorem encodeChar_lt (c : Char) : ∀ b ∈ encodeChar c, b < 256 := by
  have hlt := toNat_lt c
  intro b hb
  unfold encodeChar at hb
  by_cases h₁ : c.toNat < 0x80
  · simp [h₁] at hb
    omega
  by_cases h₂ : c.toNat < 0x800
  · simp [h₁, h₂] at hb
    omega
  by_cases h₃ : c.toNat < 0x10000
  · simp [h₁, h₂, h₃] at hb
    omega
  · simp [h₁, h₂, h₃] at hb
    omega

theorem encodeChar_ne_nil (c : Char) : encodeChar c ≠ [] := by
  unfold encodeChar
  dsimp only
  split
  · simp
  split
  · simp
  split <;> simp

/-- The form of a character is in front of a list, and the rest is read as the rest of a
text. -/
def Begins (bs : List Nat) (cs : List Char) : Prop :=
  ∃ x rest cs', cs = x :: cs' ∧ bs = encodeChar x ++ rest ∧ decode rest = some cs'

variable {cs : List Char}

theorem begins_one (ha : a < 0x80) (h : decode (a :: bs) = some cs) : Begins (a :: bs) cs := by
  rw [decode_one ha, Option.map_eq_some_iff] at h
  obtain ⟨cs', hrest, rfl⟩ := h
  have hnumber : (Char.ofNat a).toNat = a := toNat_ofNat (.inl (by omega))
  refine ⟨_, bs, cs', rfl, ?_, hrest⟩
  simp only [encodeChar, hnumber, ha, if_true, List.singleton_append]

theorem begins_two (ha : 0xC0 ≤ a ∧ a < 0xE0) (h : decode (a :: b :: bs) = some cs) :
    Begins (a :: b :: bs) cs := by
  simp only [decode_two ha, Option.bind_eq_some_iff, Option.map_eq_some_iff] at h
  obtain ⟨n, hb, x, hx, cs', hrest, rfl⟩ := h
  obtain ⟨rfl, hn⟩ := tail?_eq_some hb
  obtain ⟨hnumber, hleast⟩ := charAbove?_eq_some hx
  refine ⟨x, bs, cs', rfl, ?_, hrest⟩
  unfold encodeChar
  rw [if_neg (by omega), if_pos (by omega)]
  simp only [List.cons_append, List.nil_append, List.cons.injEq, and_true]
  omega

theorem begins_three (ha : 0xE0 ≤ a ∧ a < 0xF0) (h : decode (a :: b :: c :: bs) = some cs) :
    Begins (a :: b :: c :: bs) cs := by
  simp only [decode_three ha, Option.bind_eq_some_iff, Option.map_eq_some_iff] at h
  obtain ⟨n, hb, m, hc, x, hx, cs', hrest, rfl⟩ := h
  obtain ⟨rfl, hn⟩ := tail?_eq_some hb
  obtain ⟨rfl, hm⟩ := tail?_eq_some hc
  obtain ⟨hnumber, hleast⟩ := charAbove?_eq_some hx
  refine ⟨x, bs, cs', rfl, ?_, hrest⟩
  unfold encodeChar
  rw [if_neg (by omega), if_neg (by omega), if_pos (by omega)]
  simp only [List.cons_append, List.nil_append, List.cons.injEq, and_true]
  omega

theorem begins_four (ha : 0xF0 ≤ a ∧ a < 0xF8) (h : decode (a :: b :: c :: d :: bs) = some cs) :
    Begins (a :: b :: c :: d :: bs) cs := by
  simp only [decode_four ha, Option.bind_eq_some_iff, Option.map_eq_some_iff] at h
  obtain ⟨n, hb, m, hc, k, hd, x, hx, cs', hrest, rfl⟩ := h
  obtain ⟨rfl, hn⟩ := tail?_eq_some hb
  obtain ⟨rfl, hm⟩ := tail?_eq_some hc
  obtain ⟨rfl, hk⟩ := tail?_eq_some hd
  obtain ⟨hnumber, hleast⟩ := charAbove?_eq_some hx
  refine ⟨x, bs, cs', rfl, ?_, hrest⟩
  unfold encodeChar
  rw [if_neg (by omega), if_neg (by omega), if_neg (by omega)]
  simp only [List.cons_append, List.nil_append, List.cons.injEq, and_true]
  omega

/-- What is taken off the front of a list is the form of a character. -/
theorem begins_of_decode (h : decode (a :: bs) = some cs) : Begins (a :: bs) cs := by
  by_cases h₁ : a < 0x80
  · exact begins_one h₁ h
  by_cases h₂ : 0xC0 ≤ a ∧ a < 0xE0
  · match bs with
    | b :: bs => exact begins_two h₂ h
    | [] => simp [decode.eq_def, h₁, h₂] at h
  by_cases h₃ : 0xE0 ≤ a ∧ a < 0xF0
  · match bs with
    | b :: c :: bs => exact begins_three h₃ h
    | [] | [_] => simp [decode.eq_def, h₁, h₂, h₃] at h
  by_cases h₄ : 0xF0 ≤ a ∧ a < 0xF8
  · match bs with
    | b :: c :: d :: bs => exact begins_four h₄ h
    | [] | [_] | [_, _] => simp [decode.eq_def, h₁, h₂, h₃, h₄] at h
  · simp [decode.eq_def, h₁, h₂, h₃, h₄] at h

/-! ## Texts -/

theorem decode_encode (cs : List Char) : decode (encode cs) = some cs := by
  induction cs with
  | nil => rfl
  | cons c cs ih =>
    rw [encode, List.flatMap_cons, ← encode, decode_encodeChar, ih, Option.map_some]

theorem encode_of_decode (h : decode bs = some cs) : encode cs = bs := by
  induction cs generalizing bs with
  | nil =>
    cases bs with
    | nil => rfl
    | cons a bs =>
      obtain ⟨x, rest, cs', hcs, -⟩ := begins_of_decode h
      cases hcs
  | cons c cs ih =>
    cases bs with
    | nil => cases h
    | cons a bs =>
      obtain ⟨x, rest, cs', hcs, hbs, hrest⟩ := begins_of_decode h
      cases hcs
      rw [encode, List.flatMap_cons, ← encode, ih hrest, hbs]

end Leasehold.Utf8
