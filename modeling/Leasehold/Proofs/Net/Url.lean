import Leasehold.Net.Url
import Leasehold.Proofs.Net.Ipv6
import Leasehold.Proofs.Net.Path

/-!
# Addresses of servers are read as they were written

An address that was read is `Clean`: each part is encoded for its place
(`clean_of_ofText?`).  The text of a clean address is read as the address
(`Url.ofText?_text`), so writing and reading again changes nothing.

The proof follows the reader through the text.  At each part it uses that the characters
before the next delimiter are none themselves: in front of the last `@` because the user
and the password are encoded, in front of the path because the host has no such
character, and so on.
-/

namespace Leasehold

open Percent Numeral Text

/-! ## Hosts -/

namespace Host

/-- A host that can stand in an address. -/
def Clean : Host → Prop
  | .name t => t ≠ [] ∧ ∀ c ∈ t, isControl c = false ∧ c ∉ forbidden
  | .ipv6 a => a.Valid

theorem not_hexDigit_of_forbidden : ∀ c ∈ forbidden, c ≠ '%' ∧ hexDigit? c = none := by
  simp [forbidden, hexDigit?]

theorem clean_of_ofText? {cs : List Char} {h : Host} (hread : ofText? cs = some h) : h.Clean := by
  unfold ofText? at hread
  split at hread
  · cases hread
  · split at hread
    · obtain ⟨a, ha, rfl⟩ := Option.map_eq_some_iff.mp hread
      exact Ipv6.valid_of_ofText? ha
    · cases hread
  next hnil _ =>
    split at hread
    · cases hread
    next hnone =>
      cases hread
      refine ⟨encode_ne_nil hnil, fun c hc => ⟨spares_isControl.mem_encode hc, fun hmem => ?_⟩⟩
      have hnot : c ∉ cs := fun hcs => hnone (List.any_eq_true.mpr ⟨c, hcs, by simpa using hmem⟩)
      obtain ⟨hpercent, hdigit⟩ := not_hexDigit_of_forbidden c hmem
      refine not_mem_encode hnot hpercent (fun d hd heq => ?_) hc
      rw [heq, hexDigit?_capitalDigit hd] at hdigit
      cases hdigit

/-- The text of a host is read as the host. -/
theorem ofText?_text {h : Host} (hclean : h.Clean) : ofText? h.text = some h := by
  cases h with
  | name t =>
    obtain ⟨hne, hchars⟩ := hclean
    have hencode : encode isControl t = t := encode_eq_self fun c hc => (hchars c hc).1
    have hnone : t.any forbidden.contains = false := by
      refine Bool.eq_false_iff.mpr fun hany => ?_
      obtain ⟨c, hc, hmem⟩ := List.any_eq_true.mp hany
      exact (hchars c hc).2 (by simpa using hmem)
    rw [text, ofText?]
    · rw [hnone, hencode]
      rfl
    · exact hne
    · rintro rest rfl
      exact (hchars '[' List.mem_cons_self).2 (by decide)
  | ipv6 a =>
    rw [text, List.cons_append, ofText?, if_pos (by simp), List.dropLast_concat,
      Ipv6.ofText?_text hclean]
    rfl

end Host

namespace Url

/-! ## Delimiters -/

/-- The end of a text, or a delimiter behind a server. -/
def Ends (cs : List Char) : Prop := ∀ c, cs.head? = some c → endsAuthority c = true

theorem endsAuthority_iff {c : Char} : endsAuthority c = true ↔ c = '/' ∨ c = '?' ∨ c = '#' := by
  simp [endsAuthority]

theorem ends_cons_iff {c : Char} {cs : List Char} : Ends (c :: cs) ↔ endsAuthority c = true := by
  simp [Ends]

/-- A character that neither ends the authority nor splits the user off, and is visible. -/
def Inside (c : Char) : Prop := endsAuthority c = false ∧ c ≠ '@' ∧ 0x20 < c.toNat

theorem inside_digitChar {d : Nat} (h : d < 16) : Inside (digitChar d) := by
  unfold Inside
  revert d
  decide

/-- A character that is no control and no space is visible. -/
theorem visible {c : Char} (hcontrol : isControl c = false) (hspace : c ≠ ' ') :
    0x20 < c.toNat := by
  have hle : 0x20 ≤ c.toNat := by
    simp [isControl] at hcontrol
    exact hcontrol.1
  refine Nat.lt_of_le_of_ne hle fun heq => hspace ?_
  rw [← Char.ofNat_toNat c, ← heq]

/-! ## The user -/

/-- The user and the password. -/
def userInfo (u : Url) : List Char :=
  match u.password with
  | [] => u.user
  | password => u.user ++ ':' :: password

theorem userText_eq (u : Url) :
    u.userText = if u.userInfo = [] then [] else u.userInfo ++ ['@'] := by
  obtain ⟨user, password⟩ := u
  cases user <;> cases password <;> simp [userText, userInfo]

/-- What stands in front of the last `@` of the authority is split off. -/
theorem splitUser_userText (u : Url) {server rest : List Char}
    (huser : ∀ c ∈ u.userInfo, endsAuthority c = false)
    (hserver : ∀ c ∈ server, endsAuthority c = false ∧ c ≠ '@') (hrest : Ends rest) :
    splitUser (u.userText ++ (server ++ rest)) = (u.userInfo, server ++ rest) := by
  have hauthority : (u.userText ++ (server ++ rest)).takeWhile (!endsAuthority ·) =
      u.userText ++ server := by
    rw [← List.append_assoc]
    refine takeWhile_append_of (fun c hc => ?_) fun c hc => by simp [hrest c hc]
    obtain hc | hc := List.mem_append.mp hc
    · rw [userText_eq] at hc
      split at hc
      · cases hc
      · obtain hc | hc := List.mem_append.mp hc
        · simp [huser c hc]
        · cases List.mem_singleton.mp hc
          rfl
    · simp [(hserver c hc).1]
  have hbehind : ((u.userText ++ server).reverse.takeWhile (· != '@')).length = server.length := by
    have hlast : ∀ c, u.userText.reverse.head? = some c → (c != '@') = false := by
      intro c hc
      rw [userText_eq] at hc
      split at hc
      · cases hc
      · simp at hc
        simp [← hc]
    have hfront : ∀ c ∈ server.reverse, (c != '@') = true := by
      simpa using fun c hc => (hserver c hc).2
    rw [List.reverse_append, takeWhile_append_of hfront hlast, List.length_reverse]
  simp only [splitUser, hauthority, hbehind, List.length_append, Nat.add_sub_cancel]
  rw [userText_eq]
  by_cases hnone : u.userInfo = []
  · simp [hnone]
  · simp [hnone, List.length_append]

/-- The user and the password are told apart by the first colon. -/
theorem userInfo_parts (u : Url) (huser : ∀ c ∈ u.user, c ≠ ':') :
    u.userInfo.takeWhile (· != ':') = u.user ∧
      (u.userInfo.dropWhile (· != ':')).drop 1 = u.password := by
  have hfront : ∀ c ∈ u.user, (c != ':') = true := fun c hc => by simpa using huser c hc
  unfold userInfo
  split
  next hpassword =>
    rw [hpassword, ← List.append_nil u.user, takeWhile_append_of hfront (by simp),
      dropWhile_append_of hfront (by simp)]
    simp
  next password hpassword =>
    rw [takeWhile_append_of hfront (by simp), dropWhile_append_of hfront (by simp)]
    exact ⟨rfl, rfl⟩

/-! ## The server -/

theorem hostLength_append {inBrackets : Bool} {front : List Char}
    (h : ∀ c ∈ front, endsAuthority c = false ∧ (c = ':' → inBrackets = true) ∧
      c ≠ '[' ∧ c ≠ ']') (rest : List Char) :
    hostLength inBrackets (front ++ rest) = front.length + hostLength inBrackets rest := by
  induction front with
  | nil => simp
  | cons c front ih =>
    obtain ⟨⟨hends, hcolon, hopen, hclose⟩, hfront⟩ := List.forall_mem_cons.mp h
    have hgoes : ¬ (endsAuthority c = true ∨ (c = ':' ∧ ¬ inBrackets = true)) := by
      rw [hends]
      rintro (hc | ⟨hc, hnot⟩)
      · cases hc
      · exact hnot (hcolon hc)
    rw [List.cons_append, hostLength, if_neg hgoes, if_neg hopen, if_neg hclose, ih hfront,
      List.length_cons]
    omega

/-- The end of a text, or a delimiter behind a host. -/
def EndsHost (cs : List Char) : Prop := ∀ c, cs.head? = some c → endsAuthority c = true ∨ c = ':'

theorem hostLength_of_endsHost {cs : List Char} (h : EndsHost cs) : hostLength false cs = 0 := by
  cases cs with
  | nil => rfl
  | cons c cs =>
    rw [hostLength, if_pos]
    obtain hc | hc := h c rfl
    · exact .inl hc
    · exact .inr ⟨hc, by simp⟩

theorem not_endsAuthority_of_forbidden {c : Char} (h : c ∉ Host.forbidden) :
    endsAuthority c = false := by
  simp [Host.forbidden] at h
  simp [endsAuthority, h]

/-- The text of a host is as long as what is read as one. -/
theorem hostLength_text {h : Host} (hclean : h.Clean) {rest : List Char} (hrest : EndsHost rest) :
    hostLength false (h.text ++ rest) = h.text.length := by
  cases h with
  | name t =>
    rw [Host.text, hostLength_append, hostLength_of_endsHost hrest, Nat.add_zero]
    intro c hc
    have hmem := (hclean.2 c hc).2
    refine ⟨not_endsAuthority_of_forbidden hmem, ?_, ?_, ?_⟩
    · rintro rfl
      exact absurd (by decide) hmem
    · rintro rfl
      exact hmem (by decide)
    · rintro rfl
      exact hmem (by decide)
  | ipv6 a =>
    have hinside : hostLength true (a.text ++ ']' :: rest) = a.text.length + 1 := by
      rw [hostLength_append, hostLength, if_neg (by decide), if_neg (by decide), if_pos rfl,
        hostLength_of_endsHost hrest]
      intro c hc
      obtain rfl | ⟨d, hd, rfl⟩ := Ipv6.mem_text hc
      · decide
      · clear hc
        revert d
        decide
    rw [Host.text, List.append_assoc, List.cons_append, hostLength, if_neg (by decide), if_pos rfl,
      List.singleton_append, hinside]
    simp

theorem inside_of_mem_host {h : Host} (hclean : h.Clean) {c : Char} (hc : c ∈ h.text) :
    Inside c := by
  cases h with
  | name t =>
    obtain ⟨hcontrol, hmem⟩ := hclean.2 c hc
    refine ⟨not_endsAuthority_of_forbidden hmem, ?_, visible hcontrol ?_⟩
    · rintro rfl
      exact hmem (by decide)
    · rintro rfl
      exact hmem (by decide)
  | ipv6 a =>
    simp only [Host.text, List.mem_append, List.mem_cons, List.not_mem_nil, or_false] at hc
    obtain (rfl | hc) | rfl := hc
    · exact ⟨rfl, by decide, by decide⟩
    · obtain rfl | ⟨d, hd, rfl⟩ := Ipv6.mem_text hc
      · exact ⟨rfl, by decide, by decide⟩
      · exact inside_digitChar hd
    · exact ⟨rfl, by decide, by decide⟩

/-! ## The port -/

/-- The text of a port, with the colon in front. -/
def portText (port? : Option Nat) : List Char := marked ':' (port?.map decimal)

theorem portAndRest?_portText {port? : Option Nat} (hport : ∀ n ∈ port?, n ≤ 65535)
    {rest : List Char} (hrest : Ends rest) :
    portAndRest? (portText port? ++ rest) = some (port?, rest) := by
  cases port? with
  | none =>
    cases rest with
    | nil => rfl
    | cons c rest =>
      have hc := ends_cons_iff.mp hrest
      rw [portText, Option.map_none, marked, List.nil_append, portAndRest?]
      rintro cs heq
      cases heq
      cases hc
  | some n =>
    have hle := hport n rfl
    have hdigits : ∀ c ∈ decimal n, isDigit c = true := fun c => isDigit_of_mem_decimal
    have hstop : ∀ c, rest.head? = some c → isDigit c = false := by
      intro c hc
      obtain rfl | rfl | rfl := endsAuthority_iff.mp (hrest c hc) <;> decide
    have hne : decimal n ≠ [] := inBase_ne_nil 10 n
    have hhead : rest.head?.all (['/', '\\', '?', '#'].contains ·) = true := by
      cases hc : rest.head? with
      | none => rfl
      | some c => obtain rfl | rfl | rfl := endsAuthority_iff.mp (hrest c hc) <;> decide
    simp only [portText, Option.map_some, marked, List.cons_append, portAndRest?,
      takeWhile_append_of hdigits hstop, dropWhile_append_of hdigits hstop, value_decimal, hhead,
      hne, if_true, if_false, if_neg (Nat.not_lt.mpr hle)]

/-! ## The path, the query and the fragment -/

/-- The text of a query and a fragment, with the marks in front. -/
def tailText (query? fragment? : Option (List Char)) : List Char :=
  marked '?' query? ++ marked '#' fragment?

theorem ne_of_not_encoded {encoded : Char → Bool} {c x : Char} (h : encoded c = false)
    (hx : encoded x = true) : c ≠ x := by
  rintro rfl
  rw [hx] at h
  cases h

theorem pathAndRest_text {p : Path} (hp : p.Resolved) (query? fragment? : Option (List Char)) :
    pathAndRest (p.text ++ tailText query? fragment?) = (p, tailText query? fragment?) := by
  have hpath : ∀ c ∈ p.text, (c != '?' && c != '#') = true := by
    intro c hc
    have hencoded := Path.mem_text hp hc
    simp [ne_of_not_encoded hencoded (show inPath '?' = true by decide),
      ne_of_not_encoded hencoded (show inPath '#' = true by decide)]
  have hrest : ∀ c, (tailText query? fragment?).head? = some c →
      (c != '?' && c != '#') = false := by
    intro c hc
    cases query? <;> cases fragment? <;> simp [tailText, marked] at hc <;> subst hc <;> rfl
  rw [pathAndRest, takeWhile_append_of hpath hrest, dropWhile_append_of hpath hrest]
  cases p with
  | nil => rfl
  | cons segment p =>
    have hread := Path.ofText_text hp
    exact congrArg (·, tailText query? fragment?) hread

theorem queryAndFragment_tailText {query? fragment? : Option (List Char)}
    (hquery : ∀ q ∈ query?, ∀ c ∈ q, inQuery c = false)
    (hfragment : ∀ f ∈ fragment?, ∀ c ∈ f, inFragment c = false) :
    queryAndFragment (tailText query? fragment?) = (query?, fragment?) := by
  have hmarked : ∀ c, (marked '#' fragment?).head? = some c → (c != '#') = false := by
    intro c hc
    cases fragment? <;> simp [marked] at hc
    subst hc
    rfl
  cases query? with
  | none =>
    cases fragment? with
    | none => rfl
    | some f =>
      have hencode := encode_eq_self (hfragment f rfl)
      simp [tailText, marked, queryAndFragment, hencode]
  | some q =>
    have hfront : ∀ c ∈ q, (c != '#') = true := by
      intro c hc
      simpa using ne_of_not_encoded (hquery q rfl c hc) (by decide)
    have hmark : tailText (some q) fragment? = '?' :: (q ++ marked '#' fragment?) := rfl
    rw [hmark]
    simp only [queryAndFragment, takeWhile_append_of hfront hmarked,
      dropWhile_append_of hfront hmarked, encode_eq_self (hquery q rfl)]
    cases fragment? with
    | none => rfl
    | some f => simp [marked, encode_eq_self (hfragment f rfl)]

/-! ## Whole addresses -/

/-- An address whose parts are encoded, each for its place. -/
structure Clean (u : Url) : Prop where
  user : ∀ c ∈ u.user, inUser c = false
  password : ∀ c ∈ u.password, inUser c = false
  host : u.host.Clean
  port : ∀ n ∈ u.port?, n ≤ 65535
  path : u.path.Resolved
  query : ∀ q ∈ u.query?, ∀ c ∈ q, inQuery c = false
  fragment : ∀ f ∈ u.fragment?, ∀ c ∈ f, inFragment c = false

theorem text_eq (u : Url) :
    u.text = scheme ++ (u.userText ++ (u.host.text ++ portText u.port? ++
      (u.path.text ++ tailText u.query? u.fragment?))) := by
  simp only [text, portText, tailText, List.append_assoc]

theorem Clean.mem_userInfo {u : Url} (hu : u.Clean) {c : Char} (hc : c ∈ u.userInfo) :
    c = ':' ∨ inUser c = false := by
  unfold userInfo at hc
  split at hc
  · exact .inr (hu.user c hc)
  · rw [List.mem_append, List.mem_cons] at hc
    obtain hc | rfl | hc := hc
    · exact .inr (hu.user c hc)
    · exact .inl rfl
    · exact .inr (hu.password c hc)

theorem ends_path (p : Path) (query? fragment? : Option (List Char)) :
    Ends (p.text ++ tailText query? fragment?) := by
  intro c hc
  cases p with
  | nil =>
    cases query? <;> cases fragment? <;> simp [Path.text, tailText, marked] at hc <;> subst hc <;>
      rfl
  | cons segment p =>
    cases hc
    rfl

theorem endsHost_portText {rest : List Char} (hrest : Ends rest) (port? : Option Nat) :
    EndsHost (portText port? ++ rest) := by
  intro c hc
  cases port? with
  | none => exact .inl (hrest c hc)
  | some n =>
    cases hc
    exact .inr rfl

theorem inside_of_mem_portText {port? : Option Nat} {c : Char} (hc : c ∈ portText port?) :
    Inside c := by
  cases port? with
  | none => cases hc
  | some n =>
    obtain rfl | hdigit := List.mem_cons.mp hc
    · exact ⟨rfl, by decide, by decide⟩
    · obtain ⟨d, hd, rfl⟩ := digits_inBase (by decide) n c hdigit
      exact inside_digitChar (Nat.lt_trans hd (by decide))

theorem Clean.ofAuthority?_text {u : Url} (hu : u.Clean) :
    ofAuthority? (u.userText ++ (u.host.text ++ portText u.port? ++
      (u.path.text ++ tailText u.query? u.fragment?))) = some u := by
  have hends := ends_path u.path u.query? u.fragment?
  have hendsHost := endsHost_portText hends u.port?
  have hserver : ∀ c ∈ u.host.text ++ portText u.port?, endsAuthority c = false ∧ c ≠ '@' := by
    intro c hc
    obtain hc | hc := List.mem_append.mp hc
    · obtain ⟨hauthority, hat, -⟩ := inside_of_mem_host hu.host hc
      exact ⟨hauthority, hat⟩
    · obtain ⟨hauthority, hat, -⟩ := inside_of_mem_portText hc
      exact ⟨hauthority, hat⟩
  have huser : ∀ c ∈ u.userInfo, endsAuthority c = false := by
    intro c hc
    obtain rfl | hc := hu.mem_userInfo hc
    · rfl
    · refine Bool.eq_false_iff.mpr fun hends => ?_
      obtain rfl | rfl | rfl := endsAuthority_iff.mp hends <;> revert hc <;> decide
  obtain ⟨hname, hpassword⟩ := userInfo_parts u fun c hc =>
    ne_of_not_encoded (hu.user c hc) (by decide)
  rw [ofAuthority?, splitUser_userText u huser hserver hends]
  simp only [List.append_assoc, hostLength_text hu.host hendsHost, List.take_left, List.drop_left,
    Host.ofText?_text hu.host, portAndRest?_portText hu.port hends, pathAndRest_text hu.path,
    queryAndFragment_tailText hu.query hu.fragment, hname, hpassword, encode_eq_self hu.user,
    encode_eq_self hu.password, Option.bind_eq_bind, Option.bind_some]

theorem dropWhile_eq_self {p : Char → Bool} {cs : List Char} (h : ∀ c ∈ cs, p c = false) :
    cs.dropWhile p = cs := by
  show ([] ++ cs).dropWhile p = cs
  exact dropWhile_append_of (by simp) fun c hc => h c (List.mem_of_mem_head? hc)

/-- Nothing is dropped from a text without blanks. -/
theorem cleaned_eq_self {cs : List Char} (h : ∀ c ∈ cs, 0x20 < c.toNat) : cleaned cs = cs := by
  have hend : ∀ c ∈ cs, isDroppedAtEnd c = false := fun c hc => by
    simpa [isDroppedAtEnd] using h c hc
  have hdropped : ∀ c ∈ cs, (!isDropped c) = true := by
    intro c hc
    have hc := h c hc
    simp only [isDropped, List.contains_eq_mem, List.mem_cons, List.not_mem_nil, or_false,
      Bool.not_eq_true', decide_eq_false_iff_not]
    rintro (rfl | rfl | rfl) <;> revert hc <;> decide
  have hendReverse : ∀ c ∈ cs.reverse, isDroppedAtEnd c = false := by simpa using hend
  rw [cleaned, dropWhile_eq_self hend, dropWhile_eq_self hendReverse, List.reverse_reverse,
    List.filter_eq_self.mpr hdropped]

theorem scheme_eq : scheme = ['r', 'e', 'd', 'i', 's', ':', '/', '/'] := String.toList_ofList

theorem printable_scheme : ∀ c ∈ scheme, 0x20 < c.toNat := by
  rw [scheme_eq]
  simp

theorem printable_of_inPath {c : Char} (h : inPath c = false) : 0x20 < c.toNat :=
  visible (not_isControl (not_inFragment h)) (ne_of_not_encoded h (by decide))

theorem printable_marked {part? : Option (List Char)} (mark : Char) (hmark : 0x20 < mark.toNat)
    (hpart : ∀ part ∈ part?, ∀ c ∈ part, 0x20 < c.toNat) {c : Char} (hc : c ∈ marked mark part?) :
    0x20 < c.toNat := by
  cases part? with
  | none => cases hc
  | some part =>
    obtain rfl | hc := List.mem_cons.mp hc
    · exact hmark
    · exact hpart part rfl c hc

/-- The text of a clean address has no blanks. -/
theorem Clean.printable {u : Url} (hu : u.Clean) {c : Char} (hc : c ∈ u.text) : 0x20 < c.toNat := by
  rw [text_eq] at hc
  simp only [tailText, List.mem_append] at hc
  obtain hc | hc | (hc | hc) | hc | hc | hc := hc
  · exact printable_scheme c hc
  · rw [userText_eq] at hc
    split at hc
    · cases hc
    obtain hc | hc := List.mem_append.mp hc
    · obtain rfl | hc := hu.mem_userInfo hc
      · decide
      · exact printable_of_inPath (not_inPath hc)
    · cases List.mem_singleton.mp hc
      decide
  · exact (inside_of_mem_host hu.host hc).2.2
  · exact (inside_of_mem_portText hc).2.2
  · exact printable_of_inPath (Path.mem_text hu.path hc)
  · exact printable_marked '?' (by decide) (fun q hq c hc => visible
      (Bool.or_eq_false_iff.mp (hu.query q hq c hc)).1
      (ne_of_not_encoded (hu.query q hq c hc) (by decide))) hc
  · exact printable_marked '#' (by decide) (fun f hf c hc => visible
      (not_isControl (hu.fragment f hf c hc))
      (ne_of_not_encoded (hu.fragment f hf c hc) (by decide))) hc

theorem isPrefixOf?_append (front rest : List Char) :
    front.isPrefixOf? (front ++ rest) = some rest := by
  induction front with
  | nil => rfl
  | cons c front ih =>
    show (if c == c then front.isPrefixOf? (front ++ rest) else none) = some rest
    rw [beq_self_eq_true, if_pos rfl, ih]

/-- The text of a clean address is read as the address. -/
theorem ofText?_text {u : Url} (hu : u.Clean) : ofText? u.text = some u := by
  rw [ofText?, cleaned_eq_self fun c => hu.printable, text_eq, isPrefixOf?_append, Option.bind_some,
    hu.ofAuthority?_text]

/-! ## What is read -/

theorem le_of_portAndRest? {cs rest : List Char} {port? : Option Nat}
    (h : portAndRest? cs = some (port?, rest)) : ∀ n ∈ port?, n ≤ 65535 := by
  unfold portAndRest? at h
  split at h
  next cs =>
    dsimp only at h
    split at h
    · cases h
    next hle =>
      split at h
      · cases h
        intro n hn
        split at hn
        · cases hn
        · cases hn
          exact Nat.le_of_not_lt hle
      · cases h
  · cases h
    simp

theorem resolved_pathAndRest (cs : List Char) : (pathAndRest cs).1.Resolved := by
  unfold pathAndRest
  dsimp only
  split
  · exact fun segment hmem => nomatch hmem
  · exact Path.resolved_ofText _
  · exact Path.resolved_ofText _

theorem encoded_queryAndFragment (cs : List Char) :
    (∀ q ∈ (queryAndFragment cs).1, ∀ c ∈ q, inQuery c = false) ∧
      ∀ f ∈ (queryAndFragment cs).2, ∀ c ∈ f, inFragment c = false := by
  unfold queryAndFragment
  dsimp only
  constructor
  · split
    · rintro q ⟨⟩
      exact fun _ => spares_inQuery.mem_encode
    · rintro q ⟨⟩
  · split <;> dsimp only <;> split
    · rintro f ⟨⟩
      exact fun _ => spares_inFragment.mem_encode
    · rintro f ⟨⟩
    · rintro f ⟨⟩
      exact fun _ => spares_inFragment.mem_encode
    · rintro f ⟨⟩

/-- What is read is a clean address. -/
theorem clean_of_ofText? {cs : List Char} {u : Url} (h : ofText? cs = some u) : u.Clean := by
  rw [ofText?, Option.bind_eq_some_iff] at h
  obtain ⟨authority, -, h⟩ := h
  simp only [ofAuthority?, Option.bind_eq_bind, Option.bind_eq_some_iff] at h
  obtain ⟨host, hhost, ⟨port?, rest⟩, hport, h⟩ := h
  cases h
  obtain ⟨hquery, hfragment⟩ := encoded_queryAndFragment (pathAndRest rest).2
  exact
    { user := fun _ => spares_inUser.mem_encode
      password := fun _ => spares_inUser.mem_encode
      host := Host.clean_of_ofText? hhost
      port := le_of_portAndRest? hport
      path := resolved_pathAndRest rest
      query := hquery
      fragment := hfragment }

theorem Clean.withPassword {u : Url} (hu : u.Clean) (password : List Char) :
    (u.withPassword password).Clean :=
  { hu with password := fun _ => spares_inUser.mem_encode }

end Url

end Leasehold
