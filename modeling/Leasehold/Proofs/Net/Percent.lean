import Leasehold.Net.Percent
import Leasehold.Proofs.Text.Numeral
import Leasehold.Proofs.Text.Utf8

/-!
# What percent encoding keeps

Encoding spares the percent sign and the hexadecimal digits (`Spares`), for every part of
an address.  So an encoded text has no character left to encode (`mem_encode`), and it
stands for the octets of the text that was encoded (`octets_encode`).

These are the octets of the text itself only if no percent sign in it has two digits
behind it, for such three characters stand for a single octet.  `decode?_eq_self_iff`
says that exactly the texts without them come back.
-/

namespace Leasehold.Percent

open Numeral

/-! ## Characters that are spared -/

/-- A choice of characters to encode that leaves the percent sign and the digits alone. -/
structure Spares (encoded : Char → Bool) : Prop where
  percent : encoded '%' = false
  digit : ∀ c d, hexDigit? c = some d → encoded c = false

theorem toNat_lt_of_hexDigit? {c : Char} {d : Nat} (h : hexDigit? c = some d) :
    c.toNat < 128 := by
  unfold hexDigit? at h
  split at h
  next hc => exact Nat.lt_of_le_of_lt hc.2 (by decide)
  split at h
  next hc => exact Nat.lt_of_le_of_lt hc.2 (by decide)
  split at h
  next hc => exact Nat.lt_of_le_of_lt hc.2 (by decide)
  · cases h

theorem spares_inUser : Spares inUser where
  percent := rfl
  digit c d h := by
    have hall : ∀ n < 128, (hexDigit? (Char.ofNat n)).isSome → inUser (Char.ofNat n) = false := by
      decide
    have hc := hall c.toNat (toNat_lt_of_hexDigit? h)
    rw [Char.ofNat_toNat, h] at hc
    exact hc rfl

theorem Spares.mono {encoded encoded' : Char → Bool} (h : Spares encoded)
    (himp : ∀ c, encoded c = false → encoded' c = false) : Spares encoded' where
  percent := himp _ h.percent
  digit c d hd := himp c (h.digit c d hd)

theorem not_inPath {c : Char} (h : inUser c = false) : inPath c = false :=
  (Bool.or_eq_false_iff.mp h).1

theorem not_inFragment {c : Char} (h : inPath c = false) : inFragment c = false :=
  (Bool.or_eq_false_iff.mp h).1

theorem not_isControl {c : Char} (h : inFragment c = false) : isControl c = false :=
  (Bool.or_eq_false_iff.mp h).1

theorem not_inQuery {c : Char} (h : inPath c = false) : inQuery c = false := by
  have hfragment := not_inFragment h
  have hcontrol := not_isControl hfragment
  simp only [inPath, inFragment, Bool.or_eq_false_iff, List.contains_eq_mem, List.mem_cons,
    decide_eq_false_iff_not, not_or] at h
  simp [inQuery, hcontrol, h]

theorem spares_inPath : Spares inPath := spares_inUser.mono fun _ => not_inPath

theorem spares_inFragment : Spares inFragment := spares_inPath.mono fun _ => not_inFragment

theorem spares_inQuery : Spares inQuery := spares_inPath.mono fun _ => not_inQuery

theorem spares_isControl : Spares isControl := spares_inFragment.mono fun _ => not_isControl

/-! ## Octets -/

theorem hexDigit?_capitalDigit {d : Nat} (h : d < 16) : hexDigit? (capitalDigit d) = some d := by
  revert d
  decide

/-- The octet that two digits at the front of a text stand for. -/
def escape? : List Char → Option Nat
  | a :: b :: _ => (hexDigit? a).bind fun x => (hexDigit? b).map fun y => 16 * x + y
  | _ => none

theorem octets_percent (cs : List Char) :
    octets ('%' :: cs) =
      match escape? cs with
      | some v => v :: octets (cs.drop 2)
      | none => 0x25 :: octets cs := by
  match cs with
  | [] | [_] => rfl
  | a :: b :: rest =>
    rw [octets, escape?]
    cases hexDigit? a with
    | none => rfl
    | some x => cases hexDigit? b <;> rfl

theorem octets_cons {c : Char} (h : c ≠ '%') (cs : List Char) :
    octets (c :: cs) = Utf8.encodeChar c ++ octets cs := by
  rw [octets.eq_def]
  split
  next heq => cases heq
  next heq => cases heq; exact absurd rfl h
  next heq => cases heq; rfl

theorem octets_octet {b : Nat} (h : b < 256) (cs : List Char) :
    octets (octet b ++ cs) = b :: octets cs := by
  have hdigits : escape? (capitalDigit (b / 16) :: capitalDigit (b % 16) :: cs) = some b := by
    rw [escape?, hexDigit?_capitalDigit (by omega), hexDigit?_capitalDigit (by omega)]
    exact congrArg some (Nat.div_add_mod b 16)
  rw [octet, List.cons_append, octets_percent, List.cons_append, List.cons_append, List.nil_append,
    hdigits]
  rfl

theorem octets_flatMap_octet {bs : List Nat} (h : ∀ b ∈ bs, b < 256) (cs : List Char) :
    octets (bs.flatMap octet ++ cs) = bs ++ octets cs := by
  induction bs with
  | nil => rfl
  | cons b bs ih =>
    obtain ⟨hb, hbs⟩ := List.forall_mem_cons.mp h
    rw [List.flatMap_cons, List.append_assoc, octets_octet hb, ih hbs, List.cons_append]

/-! ## What encoding keeps -/

variable {encoded : Char → Bool} {c : Char}

theorem encode_cons_of_not (h : encoded c = false) (cs : List Char) :
    encode encoded (c :: cs) = c :: encode encoded cs := by
  simp [encode, h]

theorem encode_cons_of_encoded (h : encoded c = true) (cs : List Char) :
    encode encoded (c :: cs) = (Utf8.encodeChar c).flatMap octet ++ encode encoded cs := by
  simp [encode, h]

/-- What is encoded begins with a percent sign. -/
theorem head_encode_of_encoded (h : encoded c = true) (cs : List Char) :
    ∃ rest, encode encoded (c :: cs) = '%' :: rest := by
  rw [encode_cons_of_encoded h]
  cases hc : Utf8.encodeChar c with
  | nil => exact absurd hc (Utf8.encodeChar_ne_nil c)
  | cons b bs => exact ⟨_, rfl⟩

theorem escape?_of_first {a : Char} (h : hexDigit? a = none) (cs : List Char) :
    escape? (a :: cs) = none := by
  cases cs with
  | nil => rfl
  | cons b cs => rw [escape?, h, Option.bind_none]

theorem escape?_of_second {b : Char} (h : hexDigit? b = none) (a : Char) (cs : List Char) :
    escape? (a :: b :: cs) = none := by
  rw [escape?, h]
  cases hexDigit? a <;> rfl

theorem Spares.not_digit (hs : Spares encoded) (h : encoded c = true) : hexDigit? c = none := by
  cases hd : hexDigit? c with
  | none => rfl
  | some d =>
    rw [hs.digit c d hd] at h
    cases h

/-- Encoding makes no escape of what was none, and keeps what is one. -/
theorem Spares.escape?_encode (hs : Spares encoded) (cs : List Char) :
    escape? (encode encoded cs) = escape? cs := by
  match cs with
  | [] => rfl
  | a :: cs =>
    cases ha : encoded a with
    | true =>
      obtain ⟨rest, hrest⟩ := head_encode_of_encoded ha cs
      rw [hrest, escape?_of_first rfl, escape?_of_first (hs.not_digit ha)]
    | false =>
      rw [encode_cons_of_not ha]
      match cs with
      | [] => rfl
      | b :: cs =>
        cases hb : encoded b with
        | true =>
          obtain ⟨rest, hrest⟩ := head_encode_of_encoded hb cs
          rw [hrest, escape?_of_second rfl, escape?_of_second (hs.not_digit hb)]
        | false => rw [encode_cons_of_not hb]; rfl

theorem escape?_eq_some {cs : List Char} {v : Nat} (h : escape? cs = some v) :
    ∃ a b rest x y, cs = a :: b :: rest ∧ hexDigit? a = some x ∧ hexDigit? b = some y := by
  match cs with
  | [] | [_] => cases h
  | a :: b :: rest =>
    rw [escape?, Option.bind_eq_some_iff] at h
    obtain ⟨x, hx, h⟩ := h
    obtain ⟨y, hy, -⟩ := Option.map_eq_some_iff.mp h
    exact ⟨a, b, rest, x, y, rfl, hx, hy⟩

/-- An encoded text stands for the octets of the text that was encoded. -/
theorem Spares.octets_encode (hs : Spares encoded) (cs : List Char) :
    octets (encode encoded cs) = octets cs := by
  match cs with
  | [] => rfl
  | c :: cs =>
    by_cases hc : c = '%'
    · subst hc
      rw [encode_cons_of_not hs.percent, octets_percent, octets_percent, hs.escape?_encode]
      cases hv : escape? cs with
      | none => exact congrArg (_ :: ·) (hs.octets_encode cs)
      | some v =>
        obtain ⟨a, b, rest, x, y, rfl, ha, hb⟩ := escape?_eq_some hv
        rw [encode_cons_of_not (hs.digit a x ha), encode_cons_of_not (hs.digit b y hb)]
        exact congrArg (v :: ·) (hs.octets_encode rest)
    · rw [octets_cons hc]
      cases henc : encoded c with
      | true =>
        rw [encode_cons_of_encoded henc, octets_flatMap_octet (Utf8.encodeChar_lt c),
          hs.octets_encode cs]
      | false => rw [encode_cons_of_not henc, octets_cons hc, hs.octets_encode cs]
termination_by cs.length

/-! ## Encoded texts -/

/-- A character of an encoded text is one that was kept, or one of an octet. -/
theorem mem_encode_cases {cs : List Char} (h : c ∈ encode encoded cs) :
    (c ∈ cs ∧ encoded c = false) ∨ c = '%' ∨ ∃ d < 16, c = capitalDigit d := by
  rw [encode, List.mem_flatMap] at h
  obtain ⟨a, ha, h⟩ := h
  split at h
  next =>
    obtain ⟨b, hb, hc⟩ := List.mem_flatMap.mp h
    have hlt := Utf8.encodeChar_lt a b hb
    simp only [octet, List.mem_cons, List.not_mem_nil, or_false] at hc
    obtain hc | hc | hc := hc
    · exact .inr (.inl hc)
    · exact .inr (.inr ⟨_, by omega, hc⟩)
    · exact .inr (.inr ⟨_, by omega, hc⟩)
  next hnot =>
    cases List.mem_singleton.mp h
    exact .inl ⟨ha, Bool.eq_false_iff.mpr hnot⟩

/-- An encoded text has no character left to encode. -/
theorem Spares.mem_encode (hs : Spares encoded) {cs : List Char} (h : c ∈ encode encoded cs) :
    encoded c = false := by
  obtain ⟨-, hc⟩ | rfl | ⟨d, hd, rfl⟩ := mem_encode_cases h
  · exact hc
  · exact hs.percent
  · exact hs.digit _ d (hexDigit?_capitalDigit hd)

/-- Encoding brings in no character but percent signs and digits. -/
theorem not_mem_encode {x : Char} {cs : List Char} (h : x ∉ cs) (hpercent : x ≠ '%')
    (hdigit : ∀ d < 16, x ≠ capitalDigit d) : x ∉ encode encoded cs := by
  intro hmem
  obtain ⟨hx, -⟩ | hx | ⟨d, hd, hx⟩ := mem_encode_cases hmem
  · exact h hx
  · exact hpercent hx
  · exact hdigit d hd hx

theorem encode_ne_nil {cs : List Char} (h : cs ≠ []) : encode encoded cs ≠ [] := by
  cases cs with
  | nil => exact absurd rfl h
  | cons c cs =>
    cases hc : encoded c with
    | true =>
      obtain ⟨rest, hrest⟩ := head_encode_of_encoded hc cs
      simp [hrest]
    | false => simp [encode_cons_of_not hc]

theorem encode_eq_self {cs : List Char} (h : ∀ c ∈ cs, encoded c = false) :
    encode encoded cs = cs := by
  induction cs with
  | nil => rfl
  | cons c cs ih =>
    obtain ⟨hc, hcs⟩ := List.forall_mem_cons.mp h
    rw [encode_cons_of_not hc, ih hcs]

/-! ## Texts that come back -/

/-- Whether a percent sign in a text has two hexadecimal digits behind it. -/
def hasEscape : List Char → Bool
  | [] => false
  | c :: cs => (c == '%' && (escape? cs).isSome) || hasEscape cs

theorem octets_of_not_hasEscape {cs : List Char} (h : hasEscape cs = false) :
    octets cs = Utf8.encode cs := by
  induction cs with
  | nil => rfl
  | cons c cs ih =>
    obtain ⟨hhead, hrest⟩ := Bool.or_eq_false_iff.mp h
    rw [Utf8.encode, List.flatMap_cons, ← Utf8.encode]
    by_cases hc : c = '%'
    · subst hc
      have hnone : escape? cs = none := by simpa using hhead
      rw [octets_percent, hnone, ih hrest]
      rfl
    · rw [octets_cons hc, ih hrest]

theorem length_encode_cons (c : Char) (cs : List Char) :
    (Utf8.encode (c :: cs)).length = (Utf8.encodeChar c).length + (Utf8.encode cs).length := by
  rw [Utf8.encode, List.flatMap_cons, List.length_append, ← Utf8.encode]

/-- An escape takes three characters for one octet. -/
theorem length_octets_escape {cs : List Char} {v : Nat} (h : escape? cs = some v)
    (hle : (octets (cs.drop 2)).length ≤ (Utf8.encode (cs.drop 2)).length) :
    (octets ('%' :: cs)).length < (Utf8.encode ('%' :: cs)).length := by
  obtain ⟨a, b, rest, x, y, rfl, -, -⟩ := escape?_eq_some h
  have ha := List.length_pos_iff.mpr (Utf8.encodeChar_ne_nil a)
  have hb := List.length_pos_iff.mpr (Utf8.encodeChar_ne_nil b)
  rw [octets_percent, h, length_encode_cons, length_encode_cons, length_encode_cons]
  change (octets rest).length ≤ (Utf8.encode rest).length at hle
  change (octets rest).length + 1 < 1 + _
  omega

theorem length_octets_le (cs : List Char) : (octets cs).length ≤ (Utf8.encode cs).length := by
  match cs with
  | [] => exact Nat.le_refl _
  | c :: cs =>
    by_cases hc : c = '%'
    · subst hc
      cases hv : escape? cs with
      | none =>
        rw [octets_percent, hv, length_encode_cons, Nat.add_comm]
        exact Nat.succ_le_succ (length_octets_le cs)
      | some v => exact Nat.le_of_lt (length_octets_escape hv (length_octets_le (cs.drop 2)))
    · rw [octets_cons hc, length_encode_cons, List.length_append]
      exact Nat.add_le_add_left (length_octets_le cs) _
termination_by cs.length

theorem length_octets_lt {cs : List Char} (h : hasEscape cs = true) :
    (octets cs).length < (Utf8.encode cs).length := by
  induction cs with
  | nil => cases h
  | cons c cs ih =>
    by_cases hc : c = '%'
    · subst hc
      cases hv : escape? cs with
      | none =>
        have hrest : hasEscape cs = true := by simpa [hasEscape, hv] using h
        rw [octets_percent, hv, length_encode_cons, Nat.add_comm]
        exact Nat.succ_lt_succ (ih hrest)
      | some v => exact length_octets_escape hv (length_octets_le (cs.drop 2))
    · have hrest : hasEscape cs = true := by simpa [hasEscape, hc] using h
      rw [octets_cons hc, length_encode_cons, List.length_append]
      exact Nat.add_lt_add_left (ih hrest) _

/-- A text comes back from being read exactly if no percent sign in it has two digits
behind it. -/
theorem decode?_eq_self_iff (cs : List Char) : decode? cs = some cs ↔ hasEscape cs = false := by
  constructor
  · intro h
    have hoctets := Utf8.encode_of_decode h
    cases he : hasEscape cs with
    | false => rfl
    | true =>
      have hlt := length_octets_lt he
      rw [hoctets] at hlt
      exact absurd hlt (Nat.lt_irrefl _)
  · intro h
    rw [decode?, octets_of_not_hasEscape h, Utf8.decode_encode]

/-- A text is decoded to the one whose octets it stands for. -/
theorem decode?_eq_some_iff {cs s : List Char} :
    decode? cs = some s ↔ octets cs = Utf8.encode s := by
  constructor
  · intro h
    exact (Utf8.encode_of_decode h).symm
  · intro h
    rw [decode?, h, Utf8.decode_encode]

theorem Spares.decode?_encode (hs : Spares encoded) (cs : List Char) :
    decode? (encode encoded cs) = decode? cs := by
  rw [decode?, hs.octets_encode, decode?]

end Leasehold.Percent
