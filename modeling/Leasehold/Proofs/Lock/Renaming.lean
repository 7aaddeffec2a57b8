import Leasehold.Proofs.Lock.Registry
import Leasehold.Proofs.Lock.Tokens
import Leasehold.Proofs.Store.Locality
import Mathlib.Order.Defs.PartialOrder

/-!
# Worlds that look alike at a key

The second of two worlds may know nothing of what was done with other keys.  Fewer
tokens and generations were given out in it, so those that stand for each other in
the two worlds may have different numbers: a `Renaming` says which do.

The worlds are alike at a key `k` if their stores are, if the renewals of `k` that are
registered stand for each other, and if the same names stand for the same tokens
(`World.Renamed`).  A name that was only used for other keys may be unknown in the
second world; its token is then made when the name is used for `k`.

What is done for `k` keeps two worlds alike when it is done in both, under a renaming
that grows.  What is done for another key keeps them alike when it is done in the
first world alone.  The reason is that a renewal of another key has a token of its
own, and cancelling that token cancels nothing else.
-/

namespace Leasehold.Lock

open Cancellation (Adding Aside Spares Unseen)

/-! ## Renamings -/

/-- Which tokens of two worlds, and which generations of each lock manager, stand for
each other. -/
structure Renaming where
  /-- Two tokens that stand for each other. -/
  token : Nat → Nat → Prop
  /-- Two generations of a lock manager that stand for each other. -/
  generation : Nat → Nat → Nat → Prop

instance : Preorder Renaming where
  le g g' := (∀ a b, g.token a b → g'.token a b) ∧
    ∀ i a b, g.generation i a b → g'.generation i a b
  le_refl _ := ⟨fun _ _ => id, fun _ _ _ => id⟩
  le_trans _ _ _ h h' := ⟨fun a b hab => h'.1 a b (h.1 a b hab),
    fun i a b hab => h'.2 i a b (h.2 i a b hab)⟩

/-- Two more generations of a lock manager stand for each other. -/
def Renaming.numbering (g : Renaming) (i a b : Nat) : Nat → Nat → Nat → Prop := fun j x y =>
  g.generation j x y ∨ j = i ∧ x = a ∧ y = b

variable {n : Nat} {k : String} {g g' : Renaming} {now : Instant}

theorem Renaming.le_of_token {T : Nat → Nat → Prop} (h : ∀ a b, g.token a b → T a b) :
    g ≤ { g with token := T } :=
  ⟨h, fun _ _ _ => id⟩

/-! ## Names -/

section

variable {T T' : Nat → Nat → Prop} {c c' : Cancellation} {names names' : Table Nat}
  {name : String} {a b : Nat}

/-- What a name stands for in two worlds: for tokens that stand for each other, for
nothing, or for a token of the first world that the second one has not yet made. -/
inductive NameRenamed (T : Nat → Nat → Prop) (c : Cancellation) (names names' : Table Nat)
    (name : String) : Prop where
  | known {a b : Nat} : names.find? name = some a → names'.find? name = some b → T a b →
      NameRenamed T c names names' name
  | unknown : names.find? name = none → names'.find? name = none →
      NameRenamed T c names names' name
  | unseen {a : Nat} : names.find? name = some a → names'.find? name = none → Unseen T c a →
      (∀ other, names.find? other = some a → other = name) → NameRenamed T c names names' name

/-- What all names stand for. -/
def NamesRenamed (T : Nat → Nat → Prop) (c : Cancellation) (names names' : Table Nat) : Prop :=
  ∀ name, NameRenamed T c names names' name

namespace NamesRenamed

theorem spare (h : NamesRenamed T c names names') (hT : ∀ a b, T a b → T' a b)
    (hspares : Spares T c T' c') : NamesRenamed T' c' names names' := by
  intro name
  cases h name with
  | known ha hb hab => exact .known ha hb (hT _ _ hab)
  | unknown ha hb => exact .unknown ha hb
  | unseen ha hb hunseen honly => exact .unseen ha hb (hspares.unseen hunseen) honly

theorem lt (h : NamesRenamed T c names names') (hc : c.Renamed T c')
    (ha : names.find? name = some a) : a < c.nodes.length := by
  cases h name with
  | known ha' _ hab =>
    cases ha.symm.trans ha'
    exact (hc.lt hab).1
  | unknown hnone => cases ha.symm.trans hnone
  | unseen ha' _ hunseen =>
    cases ha.symm.trans ha'
    exact hunseen.lt

/-- A name is given to two tokens that stand for each other. -/
theorem insert (h : NamesRenamed T c names names') (hab : T a b) (name : String) :
    NamesRenamed T c (names.insert name a) (names'.insert name b) := by
  intro x
  by_cases hx : x = name
  · subst hx
    exact .known (Table.find?_insert_self _ _ _) (Table.find?_insert_self _ _ _) hab
  · have hfind := Table.find?_insert_of_ne names a hx
    have hfind' := Table.find?_insert_of_ne names' b hx
    cases h x with
    | known hu hv huv => exact .known (hfind.trans hu) (hfind'.trans hv) huv
    | unknown hu hv => exact .unknown (hfind.trans hu) (hfind'.trans hv)
    | @unseen u hu hv hunseen honly =>
      refine .unseen (hfind.trans hu) (hfind'.trans hv) hunseen fun y hy => ?_
      rw [Table.find?_insert] at hy
      split at hy
      · cases hy
        exact absurd hab (hunseen.other b)
      · exact honly y hy

/-- A name is given to a token of the first world alone. -/
theorem insert_left (h : NamesRenamed T c names names') (hname : names.find? name = none)
    (hname' : names'.find? name = none) (ha : Unseen T c a)
    (hfresh : ∀ other, names.find? other ≠ some a) :
    NamesRenamed T c (names.insert name a) names' := by
  intro x
  by_cases hx : x = name
  · subst hx
    refine .unseen (Table.find?_insert_self _ _ _) hname' ha fun y hy => ?_
    rw [Table.find?_insert] at hy
    split at hy
    next hyx => exact hyx
    next => exact absurd hy (hfresh y)
  · have hfind := Table.find?_insert_of_ne names a hx
    cases h x with
    | known hu hv huv => exact .known (hfind.trans hu) hv huv
    | unknown hu hv => exact .unknown (hfind.trans hu) hv
    | @unseen u hu hv hunseen honly =>
      refine .unseen (hfind.trans hu) hv hunseen fun y hy => ?_
      rw [Table.find?_insert] at hy
      split at hy
      · cases hy
        exact absurd hu (hfresh x)
      · exact honly y hy

/-- The second world makes the token of a name. -/
theorem see (h : NamesRenamed T c names names') (ha : names.find? name = some a)
    (honly : ∀ other, names.find? other = some a → other = name) (b : Nat) :
    NamesRenamed (Adding T a b) c names (names'.insert name b) := by
  intro x
  by_cases hx : x = name
  · subst hx
    exact .known ha (Table.find?_insert_self _ _ _) (.inr ⟨rfl, rfl⟩)
  · have hfind' := Table.find?_insert_of_ne names' b hx
    cases h x with
    | known hu hv huv => exact .known hu (hfind'.trans hv) (.inl huv)
    | unknown hu hv => exact .unknown hu (hfind'.trans hv)
    | @unseen u hu hv hunseen honly' =>
      refine .unseen hu (hfind'.trans hv) { hunseen with other := ?_ } honly'
      rintro y (hy | ⟨rfl, -⟩)
      · exact hunseen.other y hy
      · exact hx (honly x hu)

end NamesRenamed

end

/-! ## Lock managers -/

/-- Registered renewals that stand for each other. -/
structure Renewal.Renamed (g : Renaming) (i : Nat) (e e' : Renewal) : Prop where
  owner : e.owner = e'.owner
  token : g.token e.token e'.token
  generation : g.generation i e.generation e'.generation

/-- The lock managers with a number in two worlds: they have registered the same renewal
of a key. -/
structure Manager.Renamed (k : String) (g : Renaming) (i : Nat) (m m' : Manager) : Prop where
  config : m.config = m'.config
  entry : Option.Rel (Renewal.Renamed g i) (m.renewals.find? k) (m'.renewals.find? k)
  lt : ∀ {a b}, g.generation i a b → a < m.nextGeneration ∧ b < m'.nextGeneration
  left : ∀ {a b b'}, g.generation i a b → g.generation i a b' → b = b'
  right : ∀ {a a' b}, g.generation i a b → g.generation i a' b → a = a'

theorem entry_mono {i i' : Nat} {e? e?' : Option Renewal}
    (h : Option.Rel (Renewal.Renamed g i) e? e?') (htoken : ∀ a b, g.token a b → g'.token a b)
    (hgeneration : ∀ a b, g.generation i a b → g'.generation i' a b) :
    Option.Rel (Renewal.Renamed g' i') e? e?' := by
  cases h with
  | none => exact .none
  | some he => exact .some ⟨he.owner, htoken _ _ he.token, hgeneration _ _ he.generation⟩

namespace Manager

variable {i : Nat} {m m' : Manager} {key owner : String} {generation : Nat}

theorem Renamed.mono (h : m.Renamed k g i m') (htoken : ∀ a b, g.token a b → g'.token a b)
    (hgeneration : g'.generation i = g.generation i) : m.Renamed k g' i m' where
  config := h.config
  entry := entry_mono h.entry htoken fun a b hab => by rwa [hgeneration]
  lt hab := h.lt (by rwa [hgeneration] at hab)
  left hab hab' := by
    rw [hgeneration] at hab hab'
    exact h.left hab hab'
  right hab hab' := by
    rw [hgeneration] at hab hab'
    exact h.right hab hab'

theorem Renamed.renewing (h : m.Renamed k g i m') : m'.renewing k = m.renewing k := by
  have hrel := h.entry
  rw [Manager.renewing, Manager.renewing, Table.contains, Table.contains]
  generalize m.renewals.find? k = e?, m'.renewals.find? k = e?' at hrel
  cases hrel with
  | none | some => rfl

/-- What becomes of the entry of another key does not matter. -/
theorem Renamed.of_left {m₁ : Manager} (h : m.Renamed k g i m') (hconfig : m₁.config = m.config)
    (hnext : m.nextGeneration ≤ m₁.nextGeneration)
    (hfind : m₁.renewals.find? k = m.renewals.find? k) : m₁.Renamed k g i m' where
  config := hconfig.trans h.config
  entry := hfind ▸ h.entry
  lt hab := ⟨Nat.lt_of_lt_of_le (h.lt hab).1 hnext, (h.lt hab).2⟩
  left := h.left
  right := h.right

theorem find?_of_unregister {j : String} {e : Renewal}
    (h : (m.unregister key owner).2.renewals.find? j = some e) : m.renewals.find? j = some e := by
  rw [find?_unregister] at h
  split at h
  next hj => exact hj ▸ (Option.filter_eq_some_iff.mp h).1
  next => exact h

theorem find?_of_retire {j : String} {e : Renewal}
    (h : (m.retire key generation).renewals.find? j = some e) : m.renewals.find? j = some e := by
  rw [find?_retire] at h
  split at h
  next hj => exact hj ▸ (Option.filter_eq_some_iff.mp h).1
  next => exact h

theorem fst_unregister (m : Manager) (key owner : String) :
    (m.unregister key owner).1 = (m.renewals.find? key).filter (·.owner = owner) := by
  unfold unregister
  split
  next e he =>
    split
    next howner => simp [he, Option.filter_some, howner]
    next howner => simp [he, Option.filter_some, howner]
  next hnone => simp [hnone]

/-- A renewal of the key is registered in both worlds. -/
theorem Renamed.register (h : m.Renamed k g i m') (owner : String) {a b : Nat}
    (hab : g.token a b) :
    (m.register k owner a).2.Renamed k
      { g with generation := g.numbering i m.nextGeneration m'.nextGeneration } i
      (m'.register k owner b).2 where
  config := h.config
  entry := by
    rw [Manager.register, Manager.register, Table.find?_insert_self, Table.find?_insert_self]
    exact .some ⟨rfl, hab, .inr ⟨rfl, rfl, rfl⟩⟩
  lt := by
    rintro x y (hxy | ⟨-, rfl, rfl⟩)
    · exact ⟨Nat.lt_succ_of_lt (h.lt hxy).1, Nat.lt_succ_of_lt (h.lt hxy).2⟩
    · exact ⟨Nat.lt_succ_self _, Nat.lt_succ_self _⟩
  left := by
    rintro x y y' (hxy | ⟨-, rfl, rfl⟩) (hxy' | ⟨-, hx, rfl⟩)
    · exact h.left hxy hxy'
    · exact absurd (h.lt hxy).1 (hx ▸ Nat.lt_irrefl _)
    · exact absurd (h.lt hxy').1 (Nat.lt_irrefl _)
    · rfl
  right := by
    rintro x x' y (hxy | ⟨-, rfl, rfl⟩) (hxy' | ⟨-, rfl, hy⟩)
    · exact h.right hxy hxy'
    · exact absurd (h.lt hxy).2 (hy ▸ Nat.lt_irrefl _)
    · exact absurd (h.lt hxy').2 (Nat.lt_irrefl _)
    · rfl

/-- A renewal of another key is registered in the first world. -/
theorem Renamed.register_left (h : m.Renamed k g i m') (hkey : key ≠ k) (owner : String)
    (token : Nat) : (m.register key owner token).2.Renamed k g i m' :=
  h.of_left rfl (Nat.le_succ _) (Table.find?_insert_of_ne _ _ hkey.symm)

/-- A release stops renewals that stand for each other. -/
theorem Renamed.fst_unregister (h : m.Renamed k g i m') (owner : String) :
    Option.Rel (Renewal.Renamed g i) (m.unregister k owner).1 (m'.unregister k owner).1 := by
  have hrel := h.entry
  rw [Manager.fst_unregister, Manager.fst_unregister]
  generalize m.renewals.find? k = e?, m'.renewals.find? k = e?' at hrel
  cases hrel with
  | none => exact .none
  | @some e e' he =>
    rw [Option.filter_some, Option.filter_some, he.owner]
    split
    · exact .some he
    · exact .none

theorem Renamed.unregister (h : m.Renamed k g i m') (owner : String) :
    (m.unregister k owner).2.Renamed k g i (m'.unregister k owner).2 where
  config := by rw [config_unregister, config_unregister, h.config]
  entry := by
    have hrel := h.entry
    rw [find?_unregister, find?_unregister, if_pos rfl, if_pos rfl]
    generalize m.renewals.find? k = e?, m'.renewals.find? k = e?' at hrel
    cases hrel with
    | none => exact .none
    | @some e e' he =>
      rw [Option.filter_some, Option.filter_some, he.owner]
      split
      · exact .some he
      · exact .none
  lt hab := by rw [nextGeneration_unregister, nextGeneration_unregister]; exact h.lt hab
  left := h.left
  right := h.right

theorem Renamed.unregister_left (h : m.Renamed k g i m') (hkey : key ≠ k) (owner : String) :
    (m.unregister key owner).2.Renamed k g i m' := by
  have hnext := Nat.le_of_eq (nextGeneration_unregister m key owner).symm
  refine h.of_left (config_unregister _ _ _) hnext ?_
  rw [find?_unregister, if_neg hkey.symm]

theorem Renamed.retire (h : m.Renamed k g i m') {a b : Nat} (hab : g.generation i a b) :
    (m.retire k a).Renamed k g i (m'.retire k b) where
  config := by rw [config_retire, config_retire, h.config]
  entry := by
    have hrel := h.entry
    rw [find?_retire, find?_retire, if_pos rfl, if_pos rfl]
    generalize m.renewals.find? k = e?, m'.renewals.find? k = e?' at hrel
    cases hrel with
    | none => exact .none
    | @some e e' he =>
      have hsame : e.generation = a ↔ e'.generation = b := by
        constructor
        · rintro rfl
          exact h.left he.generation hab
        · rintro rfl
          exact h.right he.generation hab
      by_cases ha : e.generation = a
      · simp [Option.filter_some, ha, hsame.mp ha]
      · simp [Option.filter_some, ha, mt hsame.mpr ha, he]
  lt hxy := by rw [nextGeneration_retire, nextGeneration_retire]; exact h.lt hxy
  left := h.left
  right := h.right

theorem Renamed.retire_left (h : m.Renamed k g i m') (hkey : key ≠ k) (generation : Nat) :
    (m.retire key generation).Renamed k g i m' := by
  have hnext := Nat.le_of_eq (nextGeneration_retire m key generation).symm
  refine h.of_left (config_retire _ _ _) hnext ?_
  rw [find?_retire, if_neg hkey.symm]

end Manager

/-! ## Worlds -/

/-- Two worlds with `n` lock managers that are alike at a key. -/
structure World.Renamed (n : Nat) (k : String) (g : Renaming) (now : Instant) (w w' : World) :
    Prop where
  service : w.service.AlikeAt k now w'.service
  tokens : w.tokens.Renamed g.token w'.tokens
  names : NamesRenamed g.token w.tokens w.names w'.names
  managers : w.managers.length = n ∧ w'.managers.length = n
  manager : ∀ i, (w.manager i).Renamed k g i (w'.manager i)
  /-- The renewals of other keys have tokens of their own. -/
  aside : ∀ i j e, j ≠ k → w.registered? i j = some e → Aside g.token w.tokens e.token

namespace World

theorem token_of_some {w : World} {name : String} {a : Nat} (h : w.names.find? name = some a) :
    w.token name = (a, w) := by
  simp only [token, h]

theorem token_of_none {w : World} {name : String} (h : w.names.find? name = none) :
    w.token name = (w.tokens.nodes.length,
      { w with
        tokens := w.tokens.root.2
        names := w.names.insert name w.tokens.nodes.length }) := by
  simp only [token, h]
  rfl

namespace Renamed

variable {w w' : World} {i : Nat}

theorem later {t : Instant} (h : w.Renamed n k g now w') (hle : now ≤ t) : w.Renamed n k g t w' :=
  { h with service := h.service.later hle }

theorem withService (h : w.Renamed n k g now w') {s s' : Service} (hs : s.AlikeAt k now s') :
    (w.withService s).Renamed n k g now (w'.withService s') :=
  { h with service := hs }

/-- A service that is alike what it was does not matter. -/
theorem withService_left (h : w.Renamed n k g now w') {s : Service}
    (hs : s.AlikeAt k now w.service) : (w.withService s).Renamed n k g now w' :=
  { h with service := hs.trans h.service }

theorem owners_left (h : w.Renamed n k g now w') (owners : OwnerSource) :
    ({ w with owners } : World).Renamed n k g now w' :=
  ⟨h.service, h.tokens, h.names, h.managers, h.manager, h.aside⟩

/-- Tokens and names were changed. -/
theorem withNames (h : w.Renamed n k g now w') {T : Nat → Nat → Prop} {c c' : Cancellation}
    {names names' : Table Nat} (hT : ∀ a b, g.token a b → T a b) (hc : c.Renamed T c')
    (hnames : NamesRenamed T c names names')
    (haside : ∀ {a}, Aside g.token w.tokens a → Aside T c a) :
    ({ w with tokens := c, names := names } : World).Renamed n k { g with token := T } now
      { w' with tokens := c', names := names' } where
  service := h.service
  tokens := hc
  names := hnames
  managers := h.managers
  manager i := (h.manager i).mono hT rfl
  aside i j e hj he := haside (h.aside i j e hj he)

/-- Tokens were changed. -/
theorem withTokens (h : w.Renamed n k g now w') {T : Nat → Nat → Prop} {c c' : Cancellation}
    (hT : ∀ a b, g.token a b → T a b) (hc : c.Renamed T c')
    (hspares : Spares g.token w.tokens T c) :
    ({ w with tokens := c } : World).Renamed n k { g with token := T } now
      { w' with tokens := c' } :=
  h.withNames hT hc (h.names.spare hT hspares) hspares.aside

/-- Tokens were changed in the first world. -/
theorem withTokens_left (h : w.Renamed n k g now w') {c : Cancellation}
    (hc : c.Renamed g.token w'.tokens) (hspares : Spares g.token w.tokens g.token c) :
    ({ w with tokens := c } : World).Renamed n k g now w' :=
  h.withTokens (fun _ _ => id) hc hspares

/-- The lock manager with a number was changed in both worlds. -/
theorem setManager (h : w.Renamed n k g now w') {G : Nat → Nat → Nat → Prop} (hi : i < n)
    (hG : ∀ j, j ≠ i → G j = g.generation j) {m m' : Manager}
    (hm : m.Renamed k { g with generation := G } i m')
    (haside : ∀ j e, j ≠ k → m.renewals.find? j = some e → Aside g.token w.tokens e.token) :
    (w.setManager i m).Renamed n k { g with generation := G } now (w'.setManager i m') where
  service := h.service
  tokens := h.tokens
  names := h.names
  managers := by rw [length_setManager, length_setManager]; exact h.managers
  manager j := by
    by_cases hj : j = i
    · subst hj
      rwa [manager_setManager_self (h.managers.1 ▸ hi), manager_setManager_self (h.managers.2 ▸ hi)]
    · rw [manager_setManager_of_ne _ hj, manager_setManager_of_ne _ hj]
      exact (h.manager j).mono (fun _ _ => id) (hG j hj)
  aside j key e hkey he := by
    by_cases hj : j = i
    · subst hj
      rw [registered?_setManager_self (h.managers.1 ▸ hi)] at he
      exact haside key e hkey he
    · rw [registered?_setManager_of_ne _ hj] at he
      exact h.aside j key e hkey he

/-- The lock manager with a number was changed in the first world. -/
theorem setManager_left (h : w.Renamed n k g now w') (hi : i < n) {m : Manager}
    (hm : m.Renamed k g i (w'.manager i))
    (haside : ∀ j e, j ≠ k → m.renewals.find? j = some e → Aside g.token w.tokens e.token) :
    (w.setManager i m).Renamed n k g now w' where
  service := h.service
  tokens := h.tokens
  names := h.names
  managers := by rw [length_setManager]; exact h.managers
  manager j := by
    by_cases hj : j = i
    · subst hj
      rwa [manager_setManager_self (h.managers.1 ▸ hi)]
    · rw [manager_setManager_of_ne _ hj]
      exact h.manager j
  aside j key e hkey he := by
    by_cases hj : j = i
    · subst hj
      rw [registered?_setManager_self (h.managers.1 ▸ hi)] at he
      exact haside key e hkey he
    · rw [registered?_setManager_of_ne _ hj] at he
      exact h.aside j key e hkey he

/-! ### Names -/

/-- A name is used in both worlds. -/
theorem token (h : w.Renamed n k g now w') (name : String) :
    ∃ g', g ≤ g' ∧ (w.token name).2.Renamed n k g' now (w'.token name).2 ∧
      g'.token (w.token name).1 (w'.token name).1 := by
  cases h.names name with
  | known ha hb hab =>
    rw [token_of_some ha, token_of_some hb]
    exact ⟨g, le_rfl, h, hab⟩
  | unknown ha hb =>
    rw [token_of_none ha, token_of_none hb]
    have hT : ∀ a b, g.token a b →
        Adding g.token w.tokens.nodes.length w'.tokens.nodes.length a b := fun _ _ => .inl
    have hspares := Cancellation.spares_adding g.token w.tokens ⟨none, false⟩
      w'.tokens.nodes.length
    exact ⟨_, Renaming.le_of_token hT,
      h.withNames hT h.tokens.root ((h.names.spare hT hspares).insert (.inr ⟨rfl, rfl⟩) name)
        hspares.aside,
      .inr ⟨rfl, rfl⟩⟩
  | @unseen a ha hb hunseen honly =>
    rw [token_of_some ha, token_of_none hb]
    have hT : ∀ x y, g.token x y → Adding g.token a w'.tokens.nodes.length x y := fun _ _ => .inl
    refine ⟨_, Renaming.le_of_token hT,
      h.withNames hT (h.tokens.root_right hunseen) (h.names.see ha honly _) fun {x} hx => ?_,
      .inr ⟨rfl, rfl⟩⟩
    refine ⟨hx.parent, ?_⟩
    rintro y (hy | ⟨rfl, -⟩)
    · exact hx.other y hy
    · exact hx.parent hunseen.parent

/-- A name is used in the first world alone. -/
theorem token_left (h : w.Renamed n k g now w') (name : String) :
    (w.token name).2.Renamed n k g now w' := by
  have hfound : ∀ a, w.names.find? name = some a → (w.token name).2.Renamed n k g now w' := by
    intro a ha
    rw [token_of_some ha]
    exact h
  cases h.names name with
  | known ha => exact hfound _ ha
  | unseen ha => exact hfound _ ha
  | unknown ha hb =>
    rw [token_of_none ha]
    have hspares := Cancellation.spares_append g.token w.tokens ⟨none, false⟩
    refine h.withNames (fun _ _ => id) (h.tokens.append_left _)
      ((h.names.spare (fun _ _ => id) hspares).insert_left ha hb ?_ fun x hx => ?_) hspares.aside
    · refine ⟨by simp, Cancellation.isCancelled_append_self _ _,
        Cancellation.parent?_append_self _ _, fun y hy => ?_⟩
      exact Nat.lt_irrefl _ (h.tokens.lt hy).1
    · exact Nat.lt_irrefl _ (h.names.lt h.tokens hx)

theorem cancel (h : w.Renamed n k g now w') (name : String) :
    ∃ g', g ≤ g' ∧ (w.cancel name).Renamed n k g' now (w'.cancel name) := by
  obtain ⟨g', hg, htoken, hab⟩ := h.token name
  exact ⟨g', hg, htoken.withTokens (fun _ _ => id) (htoken.tokens.cancel hab)
    (Cancellation.spares_cancel fun _ ha => ha.ne_of_renamed hab)⟩

theorem childToken (h : w.Renamed n k g now w') (parent name : String) :
    ∃ g', g ≤ g' ∧ (w.childToken parent name).Renamed n k g' now (w'.childToken parent name) := by
  obtain ⟨g', hg, htoken, hab⟩ := h.token parent
  generalize hu : (w.token parent).2 = u, hu' : (w'.token parent).2 = u' at htoken
  have hT : ∀ a b, g'.token a b →
      Adding g'.token u.tokens.nodes.length u'.tokens.nodes.length a b := fun _ _ => .inl
  have hspares := Cancellation.spares_adding g'.token u.tokens
    ⟨some (w.token parent).1, u.tokens.isCancelled (w.token parent).1⟩ u'.tokens.nodes.length
  refine ⟨_, hg.trans (Renaming.le_of_token hT), ?_⟩
  simp only [World.childToken, hu, hu']
  exact htoken.withNames hT (htoken.tokens.child hab)
    ((htoken.names.spare hT hspares).insert (.inr ⟨rfl, rfl⟩) name) hspares.aside

/-! ### Renewals -/

theorem registered (h : w.Renamed n k g now w') (i : Nat) :
    Option.Rel (Renewal.Renamed g i) (w.registered? i k) (w'.registered? i k) :=
  (h.manager i).entry

/-- Renewals that stand for each other are cancelled in both worlds. -/
theorem cancel_renewals (h : w.Renamed n k g now w') {e? e?' : Option Renewal}
    (he : Option.Rel (Renewal.Renamed g i) e? e?') :
    ({ w with tokens := e?.elim w.tokens fun e => w.tokens.cancel e.token } : World).Renamed n k g
      now { w' with tokens := e?'.elim w'.tokens fun e => w'.tokens.cancel e.token } := by
  cases he with
  | none => exact h
  | some he =>
    exact h.withTokens (fun _ _ => id) (h.tokens.cancel he.token)
      (Cancellation.spares_cancel fun _ ha => ha.ne_of_renamed he.token)

/-- A renewal of another key is cancelled in the first world. -/
theorem cancel_renewal_left (h : w.Renamed n k g now w') {e? : Option Renewal}
    (he : ∀ e, e? = some e → Aside g.token w.tokens e.token) :
    ({ w with tokens := e?.elim w.tokens fun e => w.tokens.cancel e.token } : World).Renamed n k g
      now w' := by
  cases e? with
  | none => exact h
  | some e =>
    have haside := he e rfl
    exact h.withTokens_left (h.tokens.cancel_left haside.other)
      (Cancellation.spares_cancel fun _ ha => ha.ne_of_aside haside)

end Renamed

/-! ### Bids that win, releases and renewals that end -/

/-- The world after a bid has won. -/
def held (w : World) (bid : Bid) : World :=
  ({ w with tokens := w.heldTokens bid }).setManager bid.manager (w.heldManager bid)

theorem heldTokens_eq (w : World) (bid : Bid) :
    w.heldTokens bid = (w.registered? bid.manager bid.key).elim (w.tokens.child bid.token).2
      fun e => (w.tokens.child bid.token).2.cancel e.token := by
  unfold heldTokens
  split
  next h => rw [h, Option.elim_some]
  next h => rw [h, Option.elim_none]

theorem stopTokens_eq (w : World) (i : Nat) (key owner : String) :
    w.stopTokens i key owner =
      ((w.manager i).unregister key owner).1.elim w.tokens fun e => w.tokens.cancel e.token := by
  unfold stopTokens
  split
  next h => rw [h, Option.elim_some]
  next h => rw [h, Option.elim_none]

namespace Renamed

variable {w w' : World} {i : Nat} {key owner : String}

/-- A bid for the key wins in both worlds. -/
theorem hold (h : w.Renamed n k g now w') {bid : Bid} {token' : Nat} (hi : bid.manager < n)
    (hkey : bid.key = k) (htoken : g.token bid.token token') :
    ∃ g', g ≤ g' ∧ (w.held bid).Renamed n k g' now (w'.held { bid with token := token' }) ∧
      g'.token w.tokens.nodes.length w'.tokens.nodes.length ∧
      g'.generation bid.manager (w.manager bid.manager).nextGeneration
        (w'.manager bid.manager).nextGeneration := by
  have hT : ∀ a b, g.token a b →
      Adding g.token w.tokens.nodes.length w'.tokens.nodes.length a b := fun _ _ => .inl
  have hchild := h.withTokens hT (h.tokens.child htoken)
    (Cancellation.spares_adding g.token w.tokens ⟨some bid.token, w.tokens.isCancelled bid.token⟩ _)
  have hheld := hchild.cancel_renewals (hchild.registered bid.manager)
  have hmanager := (hheld.manager bid.manager).register bid.owner (a := w.tokens.nodes.length)
    (b := w'.tokens.nodes.length) (.inr ⟨rfl, rfl⟩)
  refine ⟨⟨Adding g.token w.tokens.nodes.length w'.tokens.nodes.length,
      g.numbering bid.manager (w.manager bid.manager).nextGeneration
        (w'.manager bid.manager).nextGeneration⟩,
    ⟨hT, fun _ _ _ => .inl⟩, ?_, .inr ⟨rfl, rfl⟩, .inr ⟨rfl, rfl, rfl⟩⟩
  subst hkey
  rw [held, held, heldTokens_eq, heldTokens_eq]
  refine hheld.setManager hi (fun j hj => ?_) hmanager fun j e hj he => ?_
  · funext a b
    simp [Renaming.numbering, hj]
  · simp only [heldManager, Manager.register] at he
    rw [Table.find?_insert_of_ne _ _ hj] at he
    exact hheld.aside bid.manager j e hj he

/-- A bid for another key wins in the first world. -/
theorem hold_left (h : w.Renamed n k g now w') {bid : Bid} (hi : bid.manager < n)
    (hkey : bid.key ≠ k) : (w.held bid).Renamed n k g now w' := by
  have hspares := Cancellation.spares_append g.token w.tokens
    ⟨some bid.token, w.tokens.isCancelled bid.token⟩
  have hchild : ({ w with tokens := (w.tokens.child bid.token).2 } : World).Renamed n k g now w' :=
    h.withTokens_left (h.tokens.append_left _) hspares
  have hheld := hchild.cancel_renewal_left (hchild.aside bid.manager bid.key · hkey)
  -- The token of the new renewal stands for none, since it is new.
  have hown : Aside g.token (w.heldTokens bid) w.tokens.nodes.length := by
    have haside : Aside g.token (w.tokens.child bid.token).2 w.tokens.nodes.length := by
      refine ⟨?_, fun y hy => Nat.lt_irrefl _ (h.tokens.lt hy).1⟩
      rw [Cancellation.child, Cancellation.parent?_append_self]
      exact Option.some_ne_none _
    rw [heldTokens_eq]
    cases w.registered? bid.manager bid.key with
    | none => exact haside
    | some e =>
      refine ⟨?_, haside.other⟩
      rw [Option.elim_some, Cancellation.parent?_cancel]
      exact haside.parent
  rw [held]
  rw [heldTokens_eq] at hown ⊢
  have hmanager := (h.manager bid.manager).register_left hkey bid.owner w.tokens.nodes.length
  refine hheld.setManager_left hi hmanager fun j e hj he => ?_
  simp only [heldManager, Manager.register, Table.find?_insert] at he
  split at he
  · cases he
    exact hown
  · exact hheld.aside bid.manager j e hj he

/-- A release of the key stops its renewal in both worlds. -/
theorem stop (h : w.Renamed n k g now w') (hi : i < n) (owner : String) :
    (w.stop i k owner).Renamed n k g now (w'.stop i k owner) := by
  have hstopped := h.cancel_renewals ((h.manager i).fst_unregister owner)
  rw [World.stop, World.stop, stopTokens_eq, stopTokens_eq]
  have hmanager := (h.manager i).unregister owner
  refine hstopped.setManager hi (fun _ _ => rfl) hmanager fun j e hj he => ?_
  exact hstopped.aside i j e hj (Manager.find?_of_unregister he)

/-- A release of another key stops a renewal in the first world. -/
theorem stop_left (h : w.Renamed n k g now w') (hi : i < n) (hkey : key ≠ k) (owner : String) :
    (w.stop i key owner).Renamed n k g now w' := by
  have haside : ∀ e, ((w.manager i).unregister key owner).1 = some e →
      Aside g.token w.tokens e.token := by
    intro e he
    rw [Manager.fst_unregister, Option.filter_eq_some_iff] at he
    exact h.aside i key e hkey he.1
  have hstopped := h.cancel_renewal_left haside
  rw [World.stop, stopTokens_eq]
  refine hstopped.setManager_left hi ((h.manager i).unregister_left hkey owner) fun j e hj he => ?_
  exact hstopped.aside i j e hj (Manager.find?_of_unregister he)

/-- A renewal of the key ends in both worlds. -/
theorem retire (h : w.Renamed n k g now w') {r : Renewing} {generation' : Nat} (hi : r.manager < n)
    (hkey : r.key = k) (hgeneration : g.generation r.manager r.generation generation')
    (token' : Nat) :
    (w.retire r).Renamed n k g now
      (w'.retire { r with token := token', generation := generation' }) := by
  subst hkey
  have hmanager := (h.manager r.manager).retire hgeneration
  refine h.setManager hi (fun _ _ => rfl) hmanager fun j e hj he => ?_
  exact h.aside r.manager j e hj (Manager.find?_of_retire he)

/-- A renewal of another key ends in the first world. -/
theorem retire_left (h : w.Renamed n k g now w') {r : Renewing} (hi : r.manager < n)
    (hkey : r.key ≠ k) : (w.retire r).Renamed n k g now w' := by
  refine h.setManager_left hi ((h.manager r.manager).retire_left hkey _) fun j e hj he => ?_
  exact h.aside r.manager j e hj (Manager.find?_of_retire he)

end Renamed

end World

end Leasehold.Lock
