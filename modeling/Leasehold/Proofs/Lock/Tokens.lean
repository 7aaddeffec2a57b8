import Leasehold.Cancellation
import Mathlib.Data.Option.Basic
import Mathlib.Data.List.Induction

/-!
# Cancellation trees under a renaming

Two trees of tokens in which some tokens stand for each other, as a relation `T` says.
They have the same flags and stand below the same tokens (`Cancellation.Renamed`).
This is kept when tokens that stand for each other are cancelled in both trees, and
when a token that stands for no other one is cancelled in the first tree alone.

Both rest on `isCancelled_cancel_iff`, which says exactly what a cancellation does.
-/

namespace Leasehold.Cancellation

variable {c c' : Cancellation} {t p a b : Nat}

/-! ## What a cancellation does -/

/-- The token above a token, if there is one. -/
def parent? (c : Cancellation) (token : Nat) : Option Nat := c.nodes[token]?.bind (·.parent?)

theorem lt_length_of_parent? (h : c.parent? t = some p) : t < c.nodes.length := by
  refine Nat.lt_of_not_le fun hle => ?_
  rw [parent?, List.getElem?_eq_none hle] at h
  cases h

theorem isCancelled_append_of_lt (h : t < c.nodes.length) (node : Node) :
    isCancelled ⟨c.nodes ++ [node]⟩ t = c.isCancelled t := by
  simp only [isCancelled, List.getElem?_append_left h]

theorem isCancelled_append_self (c : Cancellation) (node : Node) :
    isCancelled ⟨c.nodes ++ [node]⟩ c.nodes.length = node.cancelled := by
  simp [isCancelled]

theorem parent?_append_of_lt (h : t < c.nodes.length) (node : Node) :
    parent? ⟨c.nodes ++ [node]⟩ t = c.parent? t := by
  simp only [parent?, List.getElem?_append_left h]

theorem parent?_append_self (c : Cancellation) (node : Node) :
    parent? ⟨c.nodes ++ [node]⟩ c.nodes.length = node.parent? := by
  simp [parent?]

/-- What is above a token in a larger tree was so before, or it is above the new token. -/
theorem parent?_append_cases {node : Node} (h : parent? ⟨c.nodes ++ [node]⟩ t = some p) :
    (c.parent? t = some p ∧ t < c.nodes.length) ∨
      (t = c.nodes.length ∧ node.parent? = some p) := by
  obtain hlt | heq | hgt := Nat.lt_trichotomy t c.nodes.length
  · exact .inl ⟨by rwa [parent?_append_of_lt hlt] at h, hlt⟩
  · exact .inr ⟨heq, by rwa [heq, parent?_append_self] at h⟩
  · have hlt := lt_length_of_parent? h
    rw [List.length_append, List.length_singleton] at hlt
    exact absurd hlt (Nat.not_lt.mpr hgt)

theorem length_cancel (c : Cancellation) (token : Nat) :
    (c.cancel token).nodes.length = c.nodes.length := by
  obtain ⟨marked, heq, hlength, -⟩ := foldl_mark token c.nodes []
  simp [cancel, heq, hlength]

/-- The last token is marked after all others. -/
theorem cancel_append (c : Cancellation) (node : Node) (token : Nat) :
    cancel ⟨c.nodes ++ [node]⟩ token =
      ⟨(c.cancel token).nodes ++ [{ node with
        cancelled := node.cancelled || node.parent?.any (c.cancel token).isCancelled ||
          c.nodes.length == token }]⟩ := by
  have hlength := length_cancel c token
  obtain ⟨above?, flag⟩ := node
  simp only [cancel] at hlength
  cases above? with
  | none | some =>
    simp only [cancel, List.foldl_append, List.foldl_cons, List.foldl_nil, mark]
    rw [hlength]
    rfl

/-- Tokens stay in their places. -/
theorem parent?_cancel (c : Cancellation) (token t : Nat) :
    (c.cancel token).parent? t = c.parent? t := by
  obtain ⟨nodes⟩ := c
  induction nodes using List.reverseRecOn with
  | nil => rfl
  | append_singleton nodes node ih =>
    have hlength := length_cancel ⟨nodes⟩ token
    rw [cancel_append ⟨nodes⟩ node token]
    obtain hlt | heq | hgt := Nat.lt_trichotomy t nodes.length
    · rw [parent?_append_of_lt (hlength ▸ hlt), ih, parent?_append_of_lt (c := ⟨nodes⟩) hlt]
    · rw [heq, ← hlength, parent?_append_self, hlength, parent?_append_self ⟨nodes⟩]
    · have hout : (nodes ++ [node]).length ≤ t := by
        rw [List.length_append, List.length_singleton]
        exact hgt
      rw [parent?, parent?, List.getElem?_eq_none hout, List.getElem?_eq_none]
      rw [List.length_append, List.length_singleton, hlength]
      exact hgt

/-- A token is cancelled if it was, if it is the one, or if the one above it is. -/
theorem isCancelled_cancel_iff {token : Nat} (ht : t < c.nodes.length) :
    (c.cancel token).isCancelled t = true ↔
      c.isCancelled t = true ∨ t = token ∨
        ∃ p < t, c.parent? t = some p ∧ (c.cancel token).isCancelled p = true := by
  obtain ⟨nodes⟩ := c
  induction nodes using List.reverseRecOn with
  | nil => cases ht
  | append_singleton nodes node ih =>
    have hlength := length_cancel ⟨nodes⟩ token
    have hbefore : ∀ p < nodes.length, (cancel ⟨nodes ++ [node]⟩ token).isCancelled p =
        (cancel ⟨nodes⟩ token).isCancelled p := by
      intro p hp
      rw [cancel_append ⟨nodes⟩ node token, isCancelled_append_of_lt (hlength ▸ hp)]
    by_cases hlt : t < nodes.length
    · rw [hbefore t hlt, ih hlt, isCancelled_append_of_lt (c := ⟨nodes⟩) hlt,
        parent?_append_of_lt (c := ⟨nodes⟩) hlt]
      refine or_congr_right (or_congr_right (exists_congr fun p => and_congr_right fun hp => ?_))
      rw [hbefore p (Nat.lt_trans hp hlt)]
    · have heq : t = nodes.length := by
        rw [List.length_append, List.length_singleton] at ht
        omega
      subst heq
      have hflag : (cancel ⟨nodes ++ [node]⟩ token).isCancelled nodes.length =
          (node.cancelled || node.parent?.any (cancel ⟨nodes⟩ token).isCancelled ||
            nodes.length == token) := by
        rw [cancel_append ⟨nodes⟩ node token]
        exact hlength ▸ isCancelled_append_self (cancel ⟨nodes⟩ token) _
      rw [hflag, isCancelled_append_self ⟨nodes⟩, parent?_append_self ⟨nodes⟩, Bool.or_eq_true,
        Bool.or_eq_true, beq_iff_eq, or_assoc, Option.any_eq_true, or_comm (b := _ = token)]
      refine or_congr_right (or_congr_right (exists_congr fun p => ?_))
      constructor
      · rintro ⟨hp, hcancelled⟩
        have hlt : p < nodes.length := hlength ▸ lt_length_of_isCancelled hcancelled
        exact ⟨hlt, hp, (hbefore p hlt).trans hcancelled⟩
      · rintro ⟨hlt, hp, hcancelled⟩
        exact ⟨hp, (hbefore p hlt).symm.trans hcancelled⟩

/-- A token with nothing above it is cancelled by itself alone. -/
theorem isCancelled_cancel_of_root {token : Nat} (hroot : c.parent? t = none) (hne : t ≠ token) :
    (c.cancel token).isCancelled t = c.isCancelled t := by
  by_cases ht : t < c.nodes.length
  · rw [Bool.eq_iff_iff, isCancelled_cancel_iff ht]
    simp [hroot, hne]
  · have hle := Nat.le_of_not_lt ht
    rw [isCancelled, List.getElem?_eq_none (length_cancel c token ▸ hle), isCancelled,
      List.getElem?_eq_none hle]

/-! ## Renamings -/

/-- Tokens of two trees that stand for each other.  They have the same flags, and the
tokens above them stand for each other. -/
structure Renamed (T : Nat → Nat → Prop) (c c' : Cancellation) : Prop where
  left : ∀ {a b b'}, T a b → T a b' → b = b'
  right : ∀ {a a' b}, T a b → T a' b → a = a'
  lt : ∀ {a b}, T a b → a < c.nodes.length ∧ b < c'.nodes.length
  cancelled : ∀ {a b}, T a b → c.isCancelled a = c'.isCancelled b
  parent : ∀ {a b}, T a b →
    Option.Rel (fun p q => T p q ∧ p < a ∧ q < b) (c.parent? a) (c'.parent? b)
  inherited : ∀ {a b p}, T a b → c.parent? a = some p → c.isCancelled p = true →
    c.isCancelled a = true

/-- A renaming in which two more tokens stand for each other. -/
def Adding (T : Nat → Nat → Prop) (a b : Nat) (x y : Nat) : Prop := T x y ∨ x = a ∧ y = b

namespace Renamed

variable {T : Nat → Nat → Prop} {t' : Nat}

/-- The token above a token that stands for another one does so as well. -/
theorem exists_parent (h : Renamed T c c') (hab : T a b) (hp : c.parent? a = some p) :
    ∃ q, c'.parent? b = some q ∧ T p q ∧ p < a ∧ q < b := by
  have hrel := h.parent hab
  rw [hp] at hrel
  generalize c'.parent? b = q? at hrel
  cases hrel with
  | some hrel => exact ⟨_, rfl, hrel⟩

theorem exists_parent' (h : Renamed T c c') {q : Nat} (hab : T a b) (hq : c'.parent? b = some q) :
    ∃ p, c.parent? a = some p ∧ T p q ∧ p < a ∧ q < b := by
  have hrel := h.parent hab
  rw [hq] at hrel
  generalize c.parent? a = p? at hrel
  cases hrel with
  | some hrel => exact ⟨_, rfl, hrel⟩

theorem nil (c c' : Cancellation) : Renamed (fun _ _ => False) c c' :=
  ⟨nofun, nofun, nofun, nofun, nofun, nofun⟩

theorem append_left (h : Renamed T c c') (node : Node) : Renamed T ⟨c.nodes ++ [node]⟩ c' where
  left := h.left
  right := h.right
  lt hab := ⟨by simpa using Nat.lt_succ_of_lt (h.lt hab).1, (h.lt hab).2⟩
  cancelled hab := by rw [isCancelled_append_of_lt (h.lt hab).1, h.cancelled hab]
  parent hab := by rw [parent?_append_of_lt (h.lt hab).1]; exact h.parent hab
  inherited hab hp hcancelled := by
    rw [parent?_append_of_lt (h.lt hab).1] at hp
    obtain ⟨q, -, -, hlt, -⟩ := h.exists_parent hab hp
    rw [isCancelled_append_of_lt (Nat.lt_trans hlt (h.lt hab).1)] at hcancelled
    rw [isCancelled_append_of_lt (h.lt hab).1, h.inherited hab hp hcancelled]

theorem append_right (h : Renamed T c c') (node : Node) : Renamed T c ⟨c'.nodes ++ [node]⟩ where
  left := h.left
  right := h.right
  lt hab := ⟨(h.lt hab).1, by simpa using Nat.lt_succ_of_lt (h.lt hab).2⟩
  cancelled hab := by rw [isCancelled_append_of_lt (h.lt hab).2, h.cancelled hab]
  parent hab := by rw [parent?_append_of_lt (h.lt hab).2]; exact h.parent hab
  inherited := h.inherited

/-- Two tokens that stood for no others may stand for each other. -/
theorem adding (h : Renamed T c c') (ha : a < c.nodes.length) (hb : b < c'.nodes.length)
    (hleft : ∀ y, ¬ T a y) (hright : ∀ x, ¬ T x b) (hcancelled : c.isCancelled a = c'.isCancelled b)
    (hparent : Option.Rel (fun p q => T p q ∧ p < a ∧ q < b) (c.parent? a) (c'.parent? b))
    (hinherited : ∀ p, c.parent? a = some p → c.isCancelled p = true → c.isCancelled a = true) :
    Renamed (Adding T a b) c c' where
  left := by
    rintro x y y' (hxy | ⟨rfl, rfl⟩) (hxy' | ⟨hx, rfl⟩)
    · exact h.left hxy hxy'
    · exact absurd (hx ▸ hxy) (hleft _)
    · exact absurd hxy' (hleft _)
    · rfl
  right := by
    rintro x x' y (hxy | ⟨rfl, rfl⟩) (hxy' | ⟨rfl, hy⟩)
    · exact h.right hxy hxy'
    · exact absurd (hy ▸ hxy) (hright _)
    · exact absurd hxy' (hright _)
    · rfl
  lt := by
    rintro x y (hxy | ⟨rfl, rfl⟩)
    · exact h.lt hxy
    · exact ⟨ha, hb⟩
  cancelled := by
    rintro x y (hxy | ⟨rfl, rfl⟩)
    · exact h.cancelled hxy
    · exact hcancelled
  parent := by
    have hmono : ∀ {x y p? q?}, Option.Rel (fun p q => T p q ∧ p < x ∧ q < y) p? q? →
        Option.Rel (fun p q => Adding T a b p q ∧ p < x ∧ q < y) p? q? := by
      rintro x y _ _ (⟨hpq, hlt⟩ | -)
      · exact .some ⟨.inl hpq, hlt⟩
      · exact .none
    rintro x y (hxy | ⟨rfl, rfl⟩)
    · exact hmono (h.parent hxy)
    · exact hmono hparent
  inherited := by
    rintro x y p (hxy | ⟨rfl, rfl⟩) hp
    · exact h.inherited hxy hp
    · exact hinherited p hp

/-- A token that stands for no other one is cancelled in the first tree alone. -/
theorem isCancelled_cancel_left (h : Renamed T c c') (ht : ∀ y, ¬ T t y) (hab : T a b) :
    (c.cancel t).isCancelled a = c.isCancelled a := by
  -- A token has a larger number than the one above it.
  induction a using Nat.strongRecOn generalizing b with
  | ind a ih =>
    rw [Bool.eq_iff_iff, isCancelled_cancel_iff (h.lt hab).1]
    constructor
    · rintro (hcancelled | rfl | ⟨p, -, hp, hcancelled⟩)
      · exact hcancelled
      · exact absurd hab (ht b)
      · obtain ⟨q, -, hpq, hlt, -⟩ := h.exists_parent hab hp
        rw [ih p hlt hpq] at hcancelled
        exact h.inherited hab hp hcancelled
    · exact .inl

theorem cancel_left (h : Renamed T c c') (ht : ∀ y, ¬ T t y) : Renamed T (c.cancel t) c' where
  left := h.left
  right := h.right
  lt hab := by rw [length_cancel]; exact h.lt hab
  cancelled hab := by rw [h.isCancelled_cancel_left ht hab, h.cancelled hab]
  parent hab := by rw [parent?_cancel]; exact h.parent hab
  inherited hab hp hcancelled := by
    rw [parent?_cancel] at hp
    obtain ⟨q, -, hpq, -⟩ := h.exists_parent hab hp
    rw [h.isCancelled_cancel_left ht hpq] at hcancelled
    rw [h.isCancelled_cancel_left ht hab, h.inherited hab hp hcancelled]

theorem isCancelled_cancel (h : Renamed T c c') (ht : T t t') (hab : T a b) :
    (c.cancel t).isCancelled a = (c'.cancel t').isCancelled b := by
  induction a using Nat.strongRecOn generalizing b with
  | ind a ih =>
    rw [Bool.eq_iff_iff, isCancelled_cancel_iff (h.lt hab).1, isCancelled_cancel_iff (h.lt hab).2,
      h.cancelled hab]
    refine or_congr_right (or_congr ⟨?_, ?_⟩ ⟨?_, ?_⟩)
    · rintro rfl
      exact h.left hab ht
    · rintro rfl
      exact h.right hab ht
    · rintro ⟨p, -, hp, hcancelled⟩
      obtain ⟨q, hq, hpq, hlt, hlt'⟩ := h.exists_parent hab hp
      exact ⟨q, hlt', hq, ih p hlt hpq ▸ hcancelled⟩
    · rintro ⟨q, -, hq, hcancelled⟩
      obtain ⟨p, hp, hpq, hlt, -⟩ := h.exists_parent' hab hq
      exact ⟨p, hlt, hp, ih p hlt hpq ▸ hcancelled⟩

theorem cancel (h : Renamed T c c') (ht : T t t') : Renamed T (c.cancel t) (c'.cancel t') where
  left := h.left
  right := h.right
  lt hab := by rw [length_cancel, length_cancel]; exact h.lt hab
  cancelled hab := h.isCancelled_cancel ht hab
  parent hab := by rw [parent?_cancel, parent?_cancel]; exact h.parent hab
  inherited hab hp hcancelled := by
    rw [parent?_cancel] at hp
    obtain ⟨q, -, hpq, hlt, -⟩ := h.exists_parent hab hp
    exact (isCancelled_cancel_iff (h.lt hab).1).mpr (.inr (.inr ⟨_, hlt, hp, hcancelled⟩))

/-- Two tokens are made below two that stand for each other. -/
theorem child (h : Renamed T c c') (hab : T a b) :
    Renamed (Adding T c.nodes.length c'.nodes.length) (c.child a).2 (c'.child b).2 := by
  obtain ⟨ha, hb⟩ := h.lt hab
  have happend := (h.append_left ⟨some a, c.isCancelled a⟩).append_right ⟨some b, c'.isCancelled b⟩
  refine happend.adding (by simp) (by simp) (fun y hy => ?_) (fun x hx => ?_) ?_ ?_ fun p hp => ?_
  · exact Nat.lt_irrefl _ (h.lt hy).1
  · exact Nat.lt_irrefl _ (h.lt hx).2
  · rw [isCancelled_append_self, isCancelled_append_self, h.cancelled hab]
  · rw [parent?_append_self, parent?_append_self]
    exact .some ⟨hab, ha, hb⟩
  · rw [parent?_append_self] at hp
    cases hp
    rw [isCancelled_append_of_lt ha, isCancelled_append_self]
    exact id

/-- Two tokens are made with nothing above them. -/
theorem root (h : Renamed T c c') :
    Renamed (Adding T c.nodes.length c'.nodes.length) c.root.2 c'.root.2 := by
  have happend := (h.append_left ⟨none, false⟩).append_right ⟨none, false⟩
  refine happend.adding (by simp) (by simp) (fun y hy => ?_) (fun x hx => ?_) ?_ ?_ fun p hp => ?_
  · exact Nat.lt_irrefl _ (h.lt hy).1
  · exact Nat.lt_irrefl _ (h.lt hx).2
  · rw [isCancelled_append_self, isCancelled_append_self]
  · rw [parent?_append_self, parent?_append_self]
    exact .none
  · rw [parent?_append_self] at hp
    cases hp

end Renamed

/-! ## Tokens that stand for no other one -/

/-- A token of the first tree for which a token may still be made in the other one:
nothing is above it, and it is not cancelled. -/
structure Unseen (T : Nat → Nat → Prop) (c : Cancellation) (a : Nat) : Prop where
  lt : a < c.nodes.length
  cancelled : c.isCancelled a = false
  parent : c.parent? a = none
  other : ∀ b, ¬ T a b

/-- A token of the first tree that is below another one and stands for none. -/
structure Aside (T : Nat → Nat → Prop) (c : Cancellation) (a : Nat) : Prop where
  parent : c.parent? a ≠ none
  other : ∀ b, ¬ T a b

/-- Tokens that stand for no other one are left alone. -/
structure Spares (T : Nat → Nat → Prop) (c : Cancellation) (T' : Nat → Nat → Prop)
    (c' : Cancellation) : Prop where
  unseen : ∀ {a}, Unseen T c a → Unseen T' c' a
  aside : ∀ {a}, Aside T c a → Aside T' c' a

section

variable {T : Nat → Nat → Prop}

theorem Aside.lt (h : Aside T c a) : a < c.nodes.length := by
  obtain ⟨p, hp⟩ := Option.ne_none_iff_exists'.mp h.parent
  exact lt_length_of_parent? hp

theorem spares_append (T : Nat → Nat → Prop) (c : Cancellation) (node : Node) :
    Spares T c T ⟨c.nodes ++ [node]⟩ where
  unseen h := {
    lt := by simpa using Nat.lt_succ_of_lt h.lt
    cancelled := by rw [isCancelled_append_of_lt h.lt, h.cancelled]
    parent := by rw [parent?_append_of_lt h.lt, h.parent]
    other := h.other }
  aside h := ⟨by rw [parent?_append_of_lt h.lt]; exact h.parent, h.other⟩

theorem spares_adding (T : Nat → Nat → Prop) (c : Cancellation) (node : Node) (b : Nat) :
    Spares T c (Adding T c.nodes.length b) ⟨c.nodes ++ [node]⟩ where
  unseen h := by
    obtain ⟨hlt, hcancelled, hparent, hother⟩ := (spares_append T c node).unseen h
    refine ⟨hlt, hcancelled, hparent, ?_⟩
    rintro y (hy | ⟨rfl, -⟩)
    · exact hother y hy
    · exact Nat.lt_irrefl _ h.lt
  aside h := by
    refine ⟨((spares_append T c node).aside h).parent, ?_⟩
    rintro y (hy | ⟨rfl, -⟩)
    · exact h.other y hy
    · exact Nat.lt_irrefl _ h.lt

theorem spares_cancel {token : Nat} (h : ∀ a, Unseen T c a → a ≠ token) :
    Spares T c T (c.cancel token) where
  unseen ha := {
    lt := by rw [length_cancel]; exact ha.lt
    cancelled := by rw [isCancelled_cancel_of_root ha.parent (h _ ha), ha.cancelled]
    parent := by rw [parent?_cancel, ha.parent]
    other := ha.other }
  aside ha := ⟨by rw [parent?_cancel]; exact ha.parent, ha.other⟩

theorem Unseen.ne_of_aside {token : Nat} (ha : Unseen T c a) (h : Aside T c token) : a ≠ token := by
  rintro rfl
  exact h.parent ha.parent

theorem Unseen.ne_of_renamed {token b : Nat} (ha : Unseen T c a) (h : T token b) : a ≠ token := by
  rintro rfl
  exact ha.other b h

/-- A token is made in the second tree for one that is there in the first. -/
theorem Renamed.root_right (h : Renamed T c c') (ha : Unseen T c a) :
    Renamed (Adding T a c'.nodes.length) c c'.root.2 := by
  refine (h.append_right ⟨none, false⟩).adding ha.lt (by simp) ha.other (fun x hx => ?_) ?_ ?_
    fun p hp => ?_
  · exact Nat.lt_irrefl _ (h.lt hx).2
  · rw [isCancelled_append_self, ha.cancelled]
  · rw [ha.parent, parent?_append_self]
    exact .none
  · rw [ha.parent] at hp
    cases hp

end

end Leasehold.Cancellation
