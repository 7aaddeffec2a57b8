import Leasehold.Proofs.Lock.Registrations
import Leasehold.Proofs.Lock.Tokens

/-!
# The tokens of renewals are leaves

A token is made below one that has a name or below the token of a bid.  The token of a
renewal is neither: it is made when the bid wins, and nobody is told.  So no token is
ever below it, and to cancel it cancels nothing else (`Secret.isCancelled_cancel_iff`).

The tokens that somebody may know are a set that grows along a run, `World.Known`, and
the tokens of renewals stay outside (`Secret`).
-/

namespace Leasehold

/-! ## Trees -/

/-- A token comes after the one above it, and is cancelled if that one is. -/
structure Cancellation.IsTree (c : Cancellation) : Prop where
  lt : ∀ {t p}, c.parent? t = some p → p < t
  inherited : ∀ {t p}, c.parent? t = some p → c.isCancelled p = true → c.isCancelled t = true

namespace Cancellation

variable {c : Cancellation} {t token : Nat}

theorem isTree_empty : IsTree {} := ⟨nofun, nofun⟩

theorem IsTree.append (h : c.IsTree) {node : Node}
    (hnode : ∀ p, node.parent? = some p →
      p < c.nodes.length ∧ (c.isCancelled p = true → node.cancelled = true)) :
    IsTree ⟨c.nodes ++ [node]⟩ := by
  have hcases : ∀ {t p}, parent? ⟨c.nodes ++ [node]⟩ t = some p →
      p < t ∧ (isCancelled ⟨c.nodes ++ [node]⟩ p = true →
        isCancelled ⟨c.nodes ++ [node]⟩ t = true) := by
    intro t p hp
    obtain ⟨hold, ht⟩ | ⟨rfl, hnew⟩ := parent?_append_cases hp
    · have hlt := h.lt hold
      rw [isCancelled_append_of_lt (Nat.lt_trans hlt ht), isCancelled_append_of_lt ht]
      exact ⟨hlt, h.inherited hold⟩
    · obtain ⟨hlt, hcancelled⟩ := hnode p hnew
      rw [isCancelled_append_of_lt hlt, isCancelled_append_self]
      exact ⟨hlt, hcancelled⟩
  exact ⟨fun hp => (hcases hp).1, fun hp => (hcases hp).2⟩

theorem IsTree.cancel (h : c.IsTree) (token : Nat) : (c.cancel token).IsTree where
  lt hp := h.lt (parent?_cancel c token _ ▸ hp)
  inherited {t p} hp hcancelled := by
    rw [parent?_cancel] at hp
    rw [isCancelled_cancel_iff (lt_length_of_parent? hp)]
    exact .inr (.inr ⟨p, h.lt hp, hp, hcancelled⟩)

/-- To cancel a token that no other one is below cancels nothing else. -/
theorem IsTree.isCancelled_cancel_leaf (h : c.IsTree) (htoken : token < c.nodes.length)
    (hleaf : ∀ t, c.parent? t ≠ some token) :
    (c.cancel token).isCancelled t = true ↔ c.isCancelled t = true ∨ t = token := by
  constructor
  · intro hcancelled
    -- The token above a token comes before it.
    induction t using Nat.strongRecOn with
    | ind t ih =>
      have ht := lt_length_of_isCancelled hcancelled
      rw [length_cancel] at ht
      obtain hbefore | rfl | ⟨p, hlt, hp, habove⟩ := (isCancelled_cancel_iff ht).mp hcancelled
      · exact .inl hbefore
      · exact .inr rfl
      · obtain hbefore | rfl := ih p hlt habove
        · exact .inl (h.inherited hp hbefore)
        · exact absurd hp (hleaf t)
  · rintro (hcancelled | rfl)
    · exact (cancel_le c token).cancelled t hcancelled
    · exact isCancelled_cancel_self htoken

end Cancellation

namespace Lock

open Simulation

/-! ## Tokens that somebody may know -/

/-- The token that a process brings along. -/
def Process.token? : Process → Option Nat
  | .attempting bid .. | .asking bid .. | .resting bid .. | .trying bid .. => some bid.token
  | _ => none

/-- Tokens that somebody may know: among them those that have names, and those that
others are below. -/
structure World.Known (w : World) (K : Nat → Prop) : Prop where
  tree : w.tokens.IsTree
  lt : ∀ {a}, K a → a < w.tokens.nodes.length
  named : ∀ {name a}, w.names.find? name = some a → K a
  above : ∀ {t a}, w.tokens.parent? t = some a → K a

/-- Tokens become known that are new. -/
structure Learns (w : World) (K : Nat → Prop) (w' : World) (K' : Nat → Prop) : Prop where
  known : w'.Known K'
  mono : ∀ {a}, K a → K' a
  old : ∀ {a}, K' a → a < w.tokens.nodes.length → K a
  length : w.tokens.nodes.length ≤ w'.tokens.nodes.length

variable {K K' K'' : Nat → Prop} {w w' w'' : World} {a : Nat}

theorem World.Known.learns (h : w.Known K) (hnames : w'.names = w.names)
    (htokens : w'.tokens = w.tokens) : Learns w K w' K where
  known := {
    tree := by rw [htokens]; exact h.tree
    lt := by rw [htokens]; exact h.lt
    named := by rw [hnames]; exact h.named
    above := by rw [htokens]; exact h.above }
  mono := id
  old ha _ := ha
  length := Nat.le_of_eq (by rw [htokens])

theorem World.Known.withService (h : w.Known K) (s : Service) : Learns w K (w.withService s) K :=
  h.learns rfl rfl

theorem Learns.trans (h : Learns w K w' K') (h' : Learns w' K' w'' K'') : Learns w K w'' K'' where
  known := h'.known
  mono ha := h'.mono (h.mono ha)
  old ha hlt := h.old (h'.old ha (Nat.lt_of_lt_of_le hlt h.length)) hlt
  length := Nat.le_trans h.length h'.length

namespace World.Known

/-- A token with a new name is made, below a known one or below none. -/
theorem append (h : w.Known K) (name : String) (node : Cancellation.Node)
    (hparent : ∀ p, node.parent? = some p →
      K p ∧ (w.tokens.isCancelled p = true → node.cancelled = true)) :
    Learns w K { w with
      tokens := ⟨w.tokens.nodes ++ [node]⟩
      names := w.names.insert name w.tokens.nodes.length }
      (fun a => K a ∨ a = w.tokens.nodes.length) where
  known := {
    tree := h.tree.append fun p hp => ⟨h.lt (hparent p hp).1, (hparent p hp).2⟩
    lt := by
      rintro a (ha | rfl)
      · simpa using Nat.lt_succ_of_lt (h.lt ha)
      · simp
    named := by
      intro name' a ha
      rw [Table.find?_insert] at ha
      split at ha
      · exact .inr (Option.some.inj ha).symm
      · exact .inl (h.named ha)
    above := by
      intro t a ha
      obtain ⟨hold, -⟩ | ⟨-, hnew⟩ := Cancellation.parent?_append_cases ha
      · exact .inl (h.above hold)
      · exact .inl (hparent a hnew).1 }
  mono := .inl
  old := by
    rintro a (ha | rfl) hlt
    · exact ha
    · exact absurd hlt (Nat.lt_irrefl _)
  length := by simp

theorem token (h : w.Known K) (name : String) :
    ∃ K', Learns w K (w.token name).2 K' ∧ K' (w.token name).1 := by
  unfold World.token
  split
  next a ha => exact ⟨K, h.learns rfl rfl, h.named ha⟩
  next => exact ⟨_, h.append name ⟨none, false⟩ (by simp), .inr rfl⟩

theorem childToken (h : w.Known K) (parent name : String) :
    ∃ K', Learns w K (w.childToken parent name) K' := by
  obtain ⟨K₁, hlearns, habove⟩ := h.token parent
  refine ⟨_, hlearns.trans (hlearns.known.append name _ ?_)⟩
  rintro _ ⟨⟩
  exact ⟨habove, id⟩

/-- What cancels tokens makes none known. -/
theorem cancels (h : w.Known K) (token : Nat) (hnames : w'.names = w.names)
    (htokens : w'.tokens = w.tokens.cancel token) : Learns w K w' K where
  known := {
    tree := by rw [htokens]; exact h.tree.cancel token
    lt := by rw [htokens, Cancellation.length_cancel]; exact h.lt
    named := by rw [hnames]; exact h.named
    above := by
      intro t a ha
      rw [htokens, Cancellation.parent?_cancel] at ha
      exact h.above ha }
  mono := id
  old ha _ := ha
  length := Nat.le_of_eq (by rw [htokens, Cancellation.length_cancel])

theorem cancel (h : w.Known K) (name : String) : ∃ K', Learns w K (w.cancel name) K' := by
  obtain ⟨K₁, hlearns, -⟩ := h.token name
  exact ⟨K₁, hlearns.trans (hlearns.known.cancels _ rfl rfl)⟩

theorem stop (h : w.Known K) (i : Nat) (k owner : String) : Learns w K (w.stop i k owner) K := by
  cases hstopped : ((w.manager i).unregister k owner).1 with
  | none =>
    refine h.learns rfl ?_
    simp only [World.stop, World.setManager, World.stopTokens, hstopped]
  | some e =>
    refine h.cancels e.token rfl ?_
    simp only [World.stop, World.setManager, World.stopTokens, hstopped]

/-- A bid that wins makes a token that nobody knows, below its own. -/
theorem hold (h : w.Known K) {bid : Bid} (hbid : K bid.token) :
    Learns w K (({ w with tokens := w.heldTokens bid } : World).setManager bid.manager
      (w.heldManager bid)) K := by
  have hchild : Learns w K { w with tokens := (w.tokens.child bid.token).2 } K := {
    known := {
      tree := h.tree.append fun p hp => Option.some.inj hp ▸ ⟨h.lt hbid, id⟩
      lt ha := Nat.lt_of_lt_of_le (h.lt ha) (Cancellation.child_le _ _).length
      named := h.named
      above := by
        intro t a ha
        obtain ⟨hold, -⟩ | ⟨-, hnew⟩ := Cancellation.parent?_append_cases ha
        · exact h.above hold
        · exact Option.some.inj hnew ▸ hbid }
    mono := id
    old ha _ := ha
    length := (Cancellation.child_le _ _).length }
  cases hprevious : w.registered? bid.manager bid.key with
  | none =>
    refine hchild.trans (hchild.known.learns rfl ?_)
    simp only [World.setManager, World.heldTokens, hprevious]
  | some e =>
    refine hchild.trans (hchild.known.cancels e.token rfl ?_)
    simp only [World.setManager, World.heldTokens, hprevious]

end World.Known

/-! ## Turns -/

/-- What becomes known in a step of a turn, if there is one: the tokens that the process
brings along, and not those of the renewals that it starts. -/
def Informs (w : World) (K : Nat → Prop) : Turn World Process Result → Prop
  | .waits _ => True
  | .moves w' q _ => ∃ K', Learns w K w' K' ∧ ∀ a, q.token? = some a → K' a
  | .ends w' _ started _ => ∃ K', Learns w K w' K' ∧
      ∀ q ∈ started, q.token? = none ∧ ∀ r stage, q = .renewing r stage → ¬ K' r.token

section

variable {now : Instant} {p : Process}

@[simp] theorem informs_after {t : Turn World Process Result} {records : List Log.Record} :
    Informs w K (t.after records) ↔ Informs w K t := by
  cases t <;> rfl

theorem informs_moves (h : w.Known K) {q : Process} {records : List Log.Record}
    (hq : ∀ a, q.token? = some a → K a) (s : Service) :
    Informs w K (.moves (w.withService s) q records) :=
  ⟨K, h.withService s, hq⟩

theorem informs_ends (hlearns : Learns w K w' K') {a : Result} {records : List Log.Record} :
    Informs w K (.ends w' a [] records) :=
  ⟨K', hlearns, by simp⟩

theorem informs_within (h : w.Known K) {χ α : Type} {t : Turn Service χ α} {next : χ → Process}
    {done : World → α → Turn World Process Result}
    (hnext : ∀ q a, (next q).token? = some a → K a)
    (hdone : ∀ s a, Informs w K (done (w.withService s) a)) :
    Informs w K (t.within w.withService next done) := by
  cases t with
  | waits due? => trivial
  | moves s q records => exact informs_moves h (hnext q) s
  | ends s a started records => exact informs_after.mpr (hdone s a)

theorem informs_won (h : w.Known K) {bid : Bid} (hbid : K bid.token) (s : Service)
    (attempts? : Option Nat) : Informs w K (won (w.withService s) now bid attempts?) := by
  have hhold := (w.withService s).hold_eq now bid
  have hs := h.withService s
  simp only [won, hhold]
  refine ⟨K, hs.trans (hs.known.hold hbid), fun q hq => ?_⟩
  rw [List.mem_singleton.mp hq]
  refine ⟨rfl, ?_⟩
  rintro _ _ ⟨⟩ hknown
  exact Nat.lt_irrefl _ (h.lt hknown)

theorem informs_acquire {w₀ : World} {K₀ : Nat → Prop} (h : Learns w₀ K₀ w K) {manager : Nat}
    {key owner name : String} {lease timeout : Duration} :
    Informs w₀ K₀ (acquire w now manager key owner lease timeout name) := by
  unfold acquire
  split
  next => exact informs_ends h
  next =>
    obtain ⟨K', hlearns, htoken⟩ := h.known.token name
    refine ⟨K', h.trans hlearns, ?_⟩
    rintro _ ⟨⟩
    exact htoken

theorem informs_begin (h : w.Known K) (a : Action) : Informs w K (begin now w a) := by
  cases a with
  | acquire => exact informs_acquire (h.learns rfl rfl)
  | acquireDefault =>
    have htake : Learns w K { w with owners := w.owners.take.2 } K := h.learns rfl rfl
    exact informs_acquire htake
  | tryAcquire manager key owner lease name =>
    simp only [begin, tryAcquire]
    split
    next => exact informs_ends (h.learns rfl rfl)
    next =>
      obtain ⟨K', hlearns, htoken⟩ := h.token name
      refine ⟨K', hlearns, ?_⟩
      rintro _ ⟨⟩
      exact htoken
  | release manager key owner => exact ⟨K, h.stop manager key owner, by simp [Process.token?]⟩
  | cancel name =>
    obtain ⟨K', hlearns⟩ := h.cancel name
    exact informs_ends hlearns
  | child parent name =>
    obtain ⟨K', hlearns⟩ := h.childToken parent name
    exact informs_ends hlearns
  | config => exact informs_ends (h.learns rfl rfl)
  | store => exact ⟨K, h.learns rfl rfl, by simp [Process.token?]⟩

theorem informs_renewalTurn (h : w.Known K) (r : Renewing) (stage : RenewalStage) :
    Informs w K (renewalTurn now w r stage) := by
  have hretire : Learns w K (w.retire r) K := h.learns rfl rfl
  have hends : ∀ e, Informs w K (renewalEnds w r e) := fun e => informs_ends hretire
  have hgoes : ∀ {s : Service} {stage' records},
      Informs w K (.moves (w.withService s) (.renewing r stage') records) :=
    fun {s _ _} => informs_moves h (by rintro _ ⟨⟩) s
  cases stage with
  | starting =>
    simp only [renewalTurn]
    split
    · exact hends _
    · exact hgoes
  | waiting cycle tick? =>
    simp only [renewalTurn]
    split
    · exact hends _
    split
    · exact hends _
    split
    · trivial
    split
    · exact hgoes
    · trivial
  | refreshing cycle next? e =>
    simp only [renewalTurn]
    exact informs_within h (by simp [Process.token?]) fun _ _ => hgoes

/-- A turn makes no token of a renewal known. -/
theorem turn_informs (now : Instant) (h : w.Known K) (hp : ∀ a, p.token? = some a → K a) :
    Informs w K (turn now w p) := by
  cases p with
  | action a => exact informs_begin h a
  | later due? a =>
    simp only [turn]
    split
    · exact informs_moves h (by rintro _ ⟨⟩) w.service
    · trivial
  | attempting bid deadline? attempts =>
    simp only [turn]
    split
    · exact informs_ends (h.learns rfl rfl)
    · exact informs_moves h (by exact hp) w.service
  | asking bid deadline? attempts e =>
    simp only [turn]
    refine informs_within h (fun _ => hp) fun s a => ?_
    cases a with
    | acquired => exact informs_won h (hp _ rfl) s _
    | occupied | value | done | removed | failed => exact informs_moves h (by exact hp) s
  | resting bid deadline? attempts due? =>
    simp only [turn]
    split
    · exact informs_ends (h.learns rfl rfl)
    split
    · exact informs_moves h (by exact hp) w.service
    · trivial
  | trying bid e =>
    simp only [turn]
    refine informs_within h (fun _ => hp) fun s a => ?_
    cases a with
    | acquired => exact informs_won h (hp _ rfl) s _
    | occupied | value | done | removed | failed => exact informs_ends (h.withService s)
  | releasing key owner e =>
    simp only [turn]
    exact informs_within h (by simp [Process.token?]) fun s _ => informs_ends (h.withService s)
  | renewing r stage => exact informs_renewalTurn h r stage
  | store t =>
    simp only [turn]
    exact informs_within h (by simp [Process.token?]) fun s _ => informs_ends (h.withService s)

end

/-! ## Runs -/

/-- A system in which the tokens of bids are among those that may be known, and those of
renewals are not. -/
structure Secret (s : Locks) (K : Nat → Prop) : Prop where
  known : s.world.Known K
  bids : ∀ {n p a}, s.process? n = some p → p.token? = some a → K a
  renewals : ∀ {n r stage}, s.process? n = some (.renewing r stage) → ¬ K r.token

variable {s s' : Locks} {c : Choice Process}

/-- A step keeps the tokens of renewals secret. -/
theorem Secret.step (h : Secret s K) (hs : Registered s) (hstep : Step turn s c s')
    (hrule : Addressed s c s') : ∃ K', Secret s' K' := by
  -- What goes on was secret, and the tokens that become known are new.
  have hold : ∀ {K' n r stage}, Learns s.world K s'.world K' →
      s.process? n = some (.renewing r stage) → ¬ K' r.token := by
    intro K' n r stage hlearns hn hknown
    exact h.renewals hn (hlearns.old hknown (Renewing.Placed.token (hs.placed _ _ hn)))
  cases hstep with
  | @moves i p w' q records hp hturn =>
    have hinforms := turn_informs s.now h.known fun _ => h.bids hp
    have htouch := turn_touches s.now (hs.placed _ _ hp)
    rw [hturn] at hinforms htouch
    obtain ⟨K', hlearns, hq⟩ := hinforms
    refine ⟨K', hlearns.known, fun {n p' a} hp' ha => ?_, fun {n r stage} hr => ?_⟩
    · obtain ⟨-, hp'⟩ | ⟨-, hp'⟩ | ⟨k, -, hp'⟩ := System.process?_advance_cases hp'
      · exact hlearns.mono (h.bids hp' ha)
      · cases hp'; exact hq a ha
      · cases hp'
    · obtain ⟨-, hr⟩ | ⟨-, hr⟩ | ⟨k, -, hr⟩ := System.process?_advance_cases hr
      · exact hold hlearns hr
      · obtain ⟨stage₀, rfl⟩ := Process.eq_renewing (htouch.renewal?_next hr).symm
        exact hold hlearns hp
      · cases hr
  | @ends i p w' result started records hp hturn =>
    have hinforms := turn_informs s.now h.known fun _ => h.bids hp
    rw [hturn] at hinforms
    obtain ⟨K', hlearns, hstarted⟩ := hinforms
    refine ⟨K', hlearns.known, fun {n p' a} hp' ha => ?_, fun {n r stage} hr => ?_⟩
    · obtain ⟨-, hp'⟩ | ⟨-, hp'⟩ | ⟨k, -, hp'⟩ := System.process?_advance_cases hp'
      · exact hlearns.mono (h.bids hp' ha)
      · cases hp'
      · rw [(hstarted p' (List.mem_of_getElem? hp')).1] at ha
        cases ha
    · obtain ⟨-, hr⟩ | ⟨-, hr⟩ | ⟨k, -, hr⟩ := System.process?_advance_cases hr
      · exact hold hlearns hr
      · cases hr
      · exact (hstarted _ (List.mem_of_getElem? hr)).2 r stage rfl
  | start p =>
    refine ⟨K, h.known, fun {n p' a} hp' ha => ?_, fun {n r stage} hr => ?_⟩
    · obtain hp' | ⟨-, rfl⟩ := System.process?_add_cases hp'
      · exact h.bids hp' ha
      · cases p' with
        | action | later | releasing | renewing | store => cases ha
        | attempting | asking | resting | trying => cases hrule
    · obtain hr | ⟨-, rfl⟩ := System.process?_add_cases hr
      · exact h.renewals hr
      · cases hrule
  | pass => exact ⟨K, h.known, h.bids, h.renewals⟩

theorem Secret.run (h : Secret s K) (hs : Registered s) (hrun : Run turn Addressed s s') :
    ∃ K', Secret s' K' := by
  induction hrun with
  | refl => exact ⟨K, h⟩
  | tail hrun hstep hrule ih =>
    obtain ⟨K₁, hsecret⟩ := ih
    exact hsecret.step (hs.run hrun) hstep hrule

/-- To cancel the token of a renewal cancels nothing else. -/
theorem Secret.isCancelled_cancel_iff (h : Secret s K) (hs : Placed s) {n : Nat} {r : Renewing}
    {stage : RenewalStage} (hn : s.process? n = some (.renewing r stage)) {t : Nat} :
    (s.world.tokens.cancel r.token).isCancelled t = true ↔
      s.world.tokens.isCancelled t = true ∨ t = r.token :=
  h.known.tree.isCancelled_cancel_leaf (Renewing.Placed.token (hs _ _ hn)) fun _ hbelow =>
    h.renewals hn (h.known.above hbelow)

/-- A system in which there is no token yet. -/
theorem Blank.secret (h : Blank s) (hnames : s.world.names = ∅) (htokens : s.world.tokens = {}) :
    Secret s fun _ => False where
  known := {
    tree := htokens ▸ Cancellation.isTree_empty
    lt := nofun
    named := by
      intro name a ha
      rw [hnames] at ha
      cases ha
    above := by
      intro t a ha
      rw [htokens] at ha
      cases ha }
  bids hp := by
    rw [h.process?_eq_none] at hp
    cases hp
  renewals _ := id

end Lock

end Leasehold
