/-!
# Cancellation

A tree of tokens.  Cancelling a token cancels everything below it, and a token that is made below a
cancelled one is cancelled from the start.  A token is a number, and every token has a larger number
than the one above it, so a single pass in order carries a cancellation down the tree.
-/

namespace Leasehold

/-- A token of a cancellation tree. -/
structure Cancellation.Node where
  /-- The token above, if there is one. -/
  parent? : Option Nat
  /-- Whether the token is cancelled. -/
  cancelled : Bool
deriving DecidableEq, Repr

/-- The tokens made so far, each under its number. -/
structure Cancellation where
  /-- The tokens in the order in which they were made. -/
  nodes : List Cancellation.Node := []
deriving DecidableEq, Repr

namespace Cancellation

/-- Whether a token is cancelled. -/
def isCancelled (c : Cancellation) (token : Nat) : Bool :=
  match c.nodes[token]? with
  | some node => node.cancelled
  | none => false

/-- A new token with nothing above it. -/
def root (c : Cancellation) : Nat × Cancellation :=
  (c.nodes.length, ⟨c.nodes ++ [⟨none, false⟩]⟩)

/-- A new token below another. -/
def child (c : Cancellation) (parent : Nat) : Nat × Cancellation :=
  (c.nodes.length, ⟨c.nodes ++ [⟨some parent, c.isCancelled parent⟩]⟩)

/-- One step of the pass: the flags of the tokens before are settled. -/
def mark (token : Nat) (settled : List Node) (node : Node) : List Node :=
  let above := match node.parent? with
    | some p => match settled[p]? with
      | some parent => parent.cancelled
      | none => false
    | none => false
  settled ++ [{ node with cancelled := node.cancelled || above || settled.length == token }]

/-- Cancels a token and everything below it. -/
def cancel (c : Cancellation) (token : Nat) : Cancellation :=
  ⟨c.nodes.foldl (mark token) []⟩

/-! ## What stays cancelled -/

/-- The pass keeps the tokens in their order.  It leaves a flag that is set, and
sets the one of its token. -/
theorem foldl_mark (token : Nat) (nodes settled : List Node) :
    ∃ marked, nodes.foldl (mark token) settled = settled ++ marked ∧
      marked.length = nodes.length ∧
      ∀ i node, nodes[i]? = some node →
        node.cancelled = true ∨ settled.length + i = token →
          ∃ node', marked[i]? = some node' ∧ node'.cancelled = true := by
  induction nodes generalizing settled with
  | nil => exact ⟨[], by simp, rfl, by simp⟩
  | cons node nodes ih =>
    have hmark : ∃ node', mark token settled node = settled ++ [node'] ∧
        (node.cancelled = true ∨ settled.length = token → node'.cancelled = true) := by
      refine ⟨_, rfl, fun h => ?_⟩
      rcases h with h | h <;> simp [h]
    obtain ⟨node', hnode', hflag⟩ := hmark
    obtain ⟨marked, heq, hlength, hmarked⟩ := ih (settled ++ [node'])
    refine ⟨node' :: marked, ?_, by simp [hlength], ?_⟩
    · rw [List.foldl_cons, hnode', heq, List.append_assoc, List.singleton_append]
    · intro i x hx hcancelled
      cases i with
      | zero =>
        rw [List.getElem?_cons_zero, Option.some.injEq] at hx
        subst hx
        exact ⟨node', rfl, hflag (by simpa using hcancelled)⟩
      | succ i =>
        rw [List.getElem?_cons_succ] at hx
        rw [List.getElem?_cons_succ]
        refine hmarked i x hx (hcancelled.imp_right fun h => ?_)
        rw [List.length_append, List.length_singleton]
        omega

/-- The tokens of `c` are tokens of `c'`, and those that were cancelled still
are. -/
structure Le (c c' : Cancellation) : Prop where
  length : c.nodes.length ≤ c'.nodes.length
  cancelled : ∀ token, c.isCancelled token = true → c'.isCancelled token = true

theorem Le.refl (c : Cancellation) : c.Le c := ⟨Nat.le_refl _, fun _ h => h⟩

theorem Le.trans {a b c : Cancellation} (h : a.Le b) (h' : b.Le c) : a.Le c :=
  ⟨Nat.le_trans h.length h'.length, fun token ht => h'.cancelled token (h.cancelled token ht)⟩

theorem lt_length_of_isCancelled {c : Cancellation} {token : Nat}
    (h : c.isCancelled token = true) : token < c.nodes.length := by
  refine Nat.lt_of_not_le fun hle => ?_
  rw [isCancelled, List.getElem?_eq_none hle] at h
  cases h

theorem le_append (c : Cancellation) (node : Node) : c.Le ⟨c.nodes ++ [node]⟩ := by
  refine ⟨by simp, fun token h => ?_⟩
  have hlt := lt_length_of_isCancelled h
  simpa [isCancelled, List.getElem?_append, hlt] using h

theorem root_le (c : Cancellation) : c.Le c.root.2 := le_append c _

theorem child_le (c : Cancellation) (parent : Nat) : c.Le (c.child parent).2 := le_append c _

theorem isCancelled_cancel {c : Cancellation} {token t : Nat} (ht : t < c.nodes.length)
    (h : c.isCancelled t = true ∨ t = token) : (c.cancel token).isCancelled t = true := by
  obtain ⟨marked, heq, -, hmarked⟩ := foldl_mark token c.nodes []
  obtain ⟨node, hnode⟩ : ∃ node, c.nodes[t]? = some node := ⟨_, List.getElem?_eq_getElem ht⟩
  rw [isCancelled, hnode] at h
  obtain ⟨node', hnode', hcancelled⟩ := hmarked t node hnode (by simpa using h)
  simp [isCancelled, cancel, heq, hnode', hcancelled]

theorem cancel_le (c : Cancellation) (token : Nat) : c.Le (c.cancel token) := by
  obtain ⟨marked, heq, hlength, -⟩ := foldl_mark token c.nodes []
  refine ⟨by simp [cancel, heq, hlength], fun t h => ?_⟩
  exact isCancelled_cancel (lt_length_of_isCancelled h) (.inl h)

theorem isCancelled_cancel_self {c : Cancellation} {token : Nat} (h : token < c.nodes.length) :
    (c.cancel token).isCancelled token = true :=
  isCancelled_cancel h (.inr rfl)

end Cancellation

end Leasehold
