import Leasehold.Lock.Process

/-!
# What the operations on a world do to its registries

Three operations touch the renewals that are registered: a bid that wins
(`World.hold`), a release that stops a renewal (`World.stop`) and a renewal that
ends (`World.retire`).  Each is described by a structure that says what becomes
of the registered renewals, of the cancellation tokens and of the generations:
`Held`, `Stopped` and `Retired`.

All of them, and everything else that a process does, only move a world forward
(`World.Le`): generations grow, and what was cancelled stays cancelled.
-/

namespace Leasehold.Lock

namespace World

/-- The renewal that a lock manager has registered for a key. -/
def registered? (w : World) (i : Nat) (k : String) : Option Renewal :=
  (w.manager i).renewals.find? k

/-- The cancellation tokens after a release has begun: the renewal of its key is
cancelled if it was for its owner. -/
def stopTokens (w : World) (i : Nat) (k owner : String) : Cancellation :=
  match ((w.manager i).unregister k owner).1 with
  | some e => w.tokens.cancel e.token
  | none => w.tokens

/-- The world after a release has begun. -/
def stop (w : World) (i : Nat) (k owner : String) : World :=
  ({ w with tokens := w.stopTokens i k owner }).setManager i ((w.manager i).unregister k owner).2

/-- The world after a renewal is over. -/
def retire (w : World) (r : Renewing) : World :=
  w.setManager r.manager ((w.manager r.manager).retire r.key r.generation)

theorem manager_setManager_self {w : World} {i : Nat} (h : i < w.managers.length) (m : Manager) :
    (w.setManager i m).manager i = m := by
  simp [manager, setManager, h]

theorem manager_setManager_of_ne (w : World) {i j : Nat} (h : j ≠ i) (m : Manager) :
    (w.setManager i m).manager j = w.manager j := by
  simp [manager, setManager, h.symm]

@[simp] theorem length_setManager (w : World) (i : Nat) (m : Manager) :
    (w.setManager i m).managers.length = w.managers.length := by
  simp [setManager]

/-! ## The order of worlds -/

/-- A world that may come after another one. -/
structure Le (w w' : World) : Prop where
  face : w'.service.face = w.service.face
  wrap : w'.service.wrap = w.service.wrap
  managers : w'.managers.length = w.managers.length
  config : ∀ i, (w'.manager i).config = (w.manager i).config
  generation : ∀ i, (w.manager i).nextGeneration ≤ (w'.manager i).nextGeneration
  tokens : w.tokens.Le w'.tokens

theorem Le.refl (w : World) : w.Le w :=
  ⟨rfl, rfl, rfl, fun _ => rfl, fun _ => Nat.le_refl _, .refl _⟩

theorem Le.trans {w w' w'' : World} (h : w.Le w') (h' : w'.Le w'') : w.Le w'' where
  face := h'.face.trans h.face
  wrap := h'.wrap.trans h.wrap
  managers := h'.managers.trans h.managers
  config i := (h'.config i).trans (h.config i)
  generation i := Nat.le_trans (h.generation i) (h'.generation i)
  tokens := h.tokens.trans h'.tokens

theorem le_withService {w : World} {s : Service} (hface : s.face = w.service.face)
    (hwrap : s.wrap = w.service.wrap) : w.Le (w.withService s) :=
  ⟨hface, hwrap, rfl, fun _ => rfl, fun _ => Nat.le_refl _, .refl _⟩

/-- Only names, owner tokens and cancellation tokens differ, and what was
cancelled still is. -/
structure Quiet (w w' : World) : Prop where
  service : w'.service = w.service
  managers : w'.managers = w.managers
  tokens : w.tokens.Le w'.tokens

theorem Quiet.refl (w : World) : w.Quiet w := ⟨rfl, rfl, .refl _⟩

theorem Quiet.trans {w w' w'' : World} (h : w.Quiet w') (h' : w'.Quiet w'') : w.Quiet w'' :=
  ⟨h'.service.trans h.service, h'.managers.trans h.managers, h.tokens.trans h'.tokens⟩

theorem Quiet.manager {w w' : World} (h : w.Quiet w') (i : Nat) : w'.manager i = w.manager i := by
  simp [World.manager, h.managers]

theorem Quiet.le {w w' : World} (h : w.Quiet w') : w.Le w' where
  face := by rw [h.service]
  wrap := by rw [h.service]
  managers := by rw [h.managers]
  config i := by rw [h.manager]
  generation i := Nat.le_of_eq (by rw [h.manager])
  tokens := h.tokens

theorem quiet_token (w : World) (name : String) : w.Quiet (w.token name).2 := by
  unfold token
  split
  · exact .refl w
  · exact ⟨rfl, rfl, w.tokens.root_le⟩

theorem quiet_cancel (w : World) (name : String) : w.Quiet (w.cancel name) := by
  have h := w.quiet_token name
  exact ⟨h.service, h.managers, h.tokens.trans (Cancellation.cancel_le _ _)⟩

theorem quiet_childToken (w : World) (parent name : String) :
    w.Quiet (w.childToken parent name) := by
  have h := w.quiet_token parent
  exact ⟨h.service, h.managers, h.tokens.trans (Cancellation.child_le _ _)⟩

/-- Tokens and one lock manager were changed. -/
theorem le_setManager {w : World} {tokens : Cancellation} {i : Nat} {m : Manager}
    (hi : i < w.managers.length) (htokens : w.tokens.Le tokens)
    (hconfig : m.config = (w.manager i).config)
    (hm : (w.manager i).nextGeneration ≤ m.nextGeneration) :
    w.Le (({ w with tokens } : World).setManager i m) where
  face := rfl
  wrap := rfl
  managers := length_setManager _ i m
  config j := by
    have hi' : i < ({ w with tokens } : World).managers.length := hi
    by_cases hj : j = i
    · subst hj
      rwa [manager_setManager_self hi']
    · rw [manager_setManager_of_ne _ hj]
      rfl
  generation j := by
    have hi' : i < ({ w with tokens } : World).managers.length := hi
    by_cases hj : j = i
    · subst hj
      rwa [manager_setManager_self hi']
    · rw [manager_setManager_of_ne _ hj]
      exact Nat.le_refl _
  tokens := htokens

theorem registered?_setManager_self {w : World} {i : Nat} (h : i < w.managers.length) (m : Manager)
    (k : String) : (w.setManager i m).registered? i k = m.renewals.find? k := by
  rw [registered?, manager_setManager_self h]

theorem registered?_setManager_of_ne (w : World) {i j : Nat} (h : j ≠ i) (m : Manager)
    (k : String) : (w.setManager i m).registered? j k = w.registered? j k := by
  rw [registered?, manager_setManager_of_ne w h, registered?]

end World

/-! ## A bid that wins -/

namespace World

/-- The cancellation tokens after a bid has won: there is one for its renewal,
and the renewal that was registered before is cancelled. -/
def heldTokens (w : World) (bid : Bid) : Cancellation :=
  match w.registered? bid.manager bid.key with
  | some previous => (w.tokens.child bid.token).2.cancel previous.token
  | none => (w.tokens.child bid.token).2

/-- The lock manager after a bid has won. -/
def heldManager (w : World) (bid : Bid) : Manager :=
  ((w.manager bid.manager).register bid.key bid.owner w.tokens.nodes.length).2

theorem hold_eq (w : World) (now : Instant) (bid : Bid) :
    w.hold now bid =
      (⟨bid.key, bid.owner, bid.ttl, renewalInterval bid.ttl, now⟩,
        .renewing ⟨bid.manager, bid.key, w.tokens.nodes.length,
          (w.manager bid.manager).nextGeneration, now, renewalInterval bid.ttl,
          (w.manager bid.manager).config.maxRenewals.toNat⟩ .starting,
        ({ w with tokens := w.heldTokens bid }).setManager bid.manager (w.heldManager bid)) :=
  rfl

theorem child_le_heldTokens (w : World) (bid : Bid) :
    (w.tokens.child bid.token).2.Le (w.heldTokens bid) := by
  unfold heldTokens
  split
  · exact Cancellation.cancel_le _ _
  · exact .refl _

end World

/-- What is told to a bid that has won, the renewal that is started for it, and
the world after it: the renewal is registered for its key, and the one that was
registered before is cancelled. -/
structure Held (w : World) (now : Instant) (bid : Bid) (l : Lease) (r : Renewing) (w' : World) :
    Prop where
  lease : l = ⟨bid.key, bid.owner, bid.ttl, renewalInterval bid.ttl, now⟩
  renewal : r = ⟨bid.manager, bid.key, w.tokens.nodes.length,
    (w.manager bid.manager).nextGeneration, now, renewalInterval bid.ttl,
    (w.manager bid.manager).config.maxRenewals.toNat⟩
  le : w.Le w'
  service : w'.service = w.service
  token : r.token < w'.tokens.nodes.length
  registered : w'.registered? bid.manager bid.key = some ⟨bid.owner, r.token, r.generation⟩
  others : ∀ i k, i ≠ bid.manager ∨ k ≠ bid.key → w'.registered? i k = w.registered? i k
  previous : ∀ e, w.registered? bid.manager bid.key = some e → e.token < w.tokens.nodes.length →
    w'.tokens.isCancelled e.token = true
  generation : r.generation < (w'.manager bid.manager).nextGeneration

theorem held_of_hold {w w' : World} {now : Instant} {bid : Bid} {l : Lease} {r : Renewing}
    (hbid : bid.manager < w.managers.length)
    (h : w.hold now bid = (l, .renewing r .starting, w')) : Held w now bid l r w' := by
  rw [World.hold_eq] at h
  cases h
  have hbid' : bid.manager < ({ w with tokens := w.heldTokens bid } : World).managers.length := hbid
  have htokens := w.child_le_heldTokens bid
  have hgeneration : (w.heldManager bid).nextGeneration =
      (w.manager bid.manager).nextGeneration + 1 := rfl
  refine ⟨rfl, rfl, World.le_setManager hbid ?_ rfl ?_, rfl, ?_, ?_, fun i k hne => ?_,
    fun e he hlt => ?_, ?_⟩
  · exact (Cancellation.child_le _ _).trans htokens
  · rw [hgeneration]
    exact Nat.le_succ _
  · refine Nat.lt_of_lt_of_le ?_ htokens.length
    simp [Cancellation.child]
  · rw [World.registered?_setManager_self hbid']
    exact Table.find?_insert_self _ _ _
  · by_cases hi : i = bid.manager
    · subst hi
      have hk : k ≠ bid.key := by simpa using hne
      rw [World.registered?_setManager_self hbid']
      exact Table.find?_insert_of_ne _ _ hk
    · rw [World.registered?_setManager_of_ne _ hi]
      rfl
  · have hlt' : e.token < (w.tokens.child bid.token).2.nodes.length :=
      Nat.lt_of_lt_of_le hlt (Cancellation.child_le _ _).length
    show (w.heldTokens bid).isCancelled e.token = true
    simp only [World.heldTokens, he]
    exact Cancellation.isCancelled_cancel_self hlt'
  · rw [World.manager_setManager_self hbid', hgeneration]
    exact Nat.lt_succ_self _

theorem Held.kept {w w' : World} {now : Instant} {bid : Bid} {l : Lease} {r : Renewing}
    (h : Held w now bid l r w') {i : Nat} {k : String} {e : Renewal}
    (he : w.registered? i k = some e) (htoken : e.token < w.tokens.nodes.length) :
    w'.registered? i k = some e ∨ w'.tokens.isCancelled e.token = true := by
  by_cases hk : i = bid.manager ∧ k = bid.key
  · obtain ⟨rfl, rfl⟩ := hk
    exact .inr (h.previous e he htoken)
  · exact .inl ((h.others i k (Decidable.not_and_iff_or_not.mp hk)).trans he)

theorem Held.registered_cases {w w' : World} {now : Instant} {bid : Bid} {l : Lease} {r : Renewing}
    (h : Held w now bid l r w') {i : Nat} {k : String} {e : Renewal}
    (he : w'.registered? i k = some e) :
    w.registered? i k = some e ∨
      (i = bid.manager ∧ k = bid.key ∧ e = ⟨bid.owner, r.token, r.generation⟩) := by
  by_cases hk : i = bid.manager ∧ k = bid.key
  · obtain ⟨rfl, rfl⟩ := hk
    rw [h.registered, Option.some.injEq] at he
    exact .inr ⟨rfl, rfl, he.symm⟩
  · exact .inl ((h.others i k (Decidable.not_and_iff_or_not.mp hk)).symm.trans he)

/-! ## A release that stops a renewal -/

/-- The world after a release has begun: the renewal that was registered for its
key and owner is cancelled. -/
structure Stopped (w : World) (i : Nat) (k owner : String) (w' : World) : Prop where
  le : w.Le w'
  service : w'.service = w.service
  registered : w'.registered? i k = (w.registered? i k).filter (·.owner ≠ owner)
  others : ∀ j key, j ≠ i ∨ key ≠ k → w'.registered? j key = w.registered? j key
  previous : ∀ e, w.registered? i k = some e → e.owner = owner → e.token < w.tokens.nodes.length →
    w'.tokens.isCancelled e.token = true

theorem Manager.config_unregister (m : Manager) (k owner : String) :
    (m.unregister k owner).2.config = m.config := by
  unfold unregister
  split
  · split <;> rfl
  · rfl

theorem Manager.nextGeneration_unregister (m : Manager) (k owner : String) :
    (m.unregister k owner).2.nextGeneration = m.nextGeneration := by
  unfold unregister
  split
  · split <;> rfl
  · rfl

theorem Manager.find?_unregister (m : Manager) (k owner j : String) :
    (m.unregister k owner).2.renewals.find? j =
      if j = k then (m.renewals.find? k).filter (·.owner ≠ owner) else m.renewals.find? j := by
  unfold unregister
  split
  next e he =>
    split
    next howner =>
      by_cases hj : j = k <;> simp [hj, he, howner, Table.find?_erase, Option.filter_some]
    next howner => by_cases hj : j = k <;> simp [hj, he, howner, Option.filter_some]
  next hnone => by_cases hj : j = k <;> simp [hj, hnone]

theorem World.le_stopTokens (w : World) (i : Nat) (k owner : String) :
    w.tokens.Le (w.stopTokens i k owner) := by
  unfold stopTokens
  split
  · exact Cancellation.cancel_le _ _
  · exact .refl _

theorem stopped_stop {w : World} {i : Nat} (hi : i < w.managers.length) (k owner : String) :
    Stopped w i k owner (w.stop i k owner) := by
  have hi' : i < ({ w with tokens := w.stopTokens i k owner } : World).managers.length := hi
  refine ⟨World.le_setManager hi (w.le_stopTokens i k owner) (Manager.config_unregister _ _ _) ?_,
    rfl, ?_, fun j key hne => ?_, fun e he howner hlt => ?_⟩
  · exact Nat.le_of_eq (Manager.nextGeneration_unregister _ _ _).symm
  · rw [World.stop, World.registered?_setManager_self hi']
    exact (Manager.find?_unregister _ _ _ _).trans (if_pos rfl)
  · by_cases hj : j = i
    · subst hj
      have hkey : key ≠ k := by simpa using hne
      rw [World.stop, World.registered?_setManager_self hi', Manager.find?_unregister, if_neg hkey]
      rfl
    · rw [World.stop, World.registered?_setManager_of_ne _ hj]
      rfl
  · have hfind : (w.manager i).renewals.find? k = some e := he
    have hstopped : ((w.manager i).unregister k owner).1 = some e := by
      simp [Manager.unregister, hfind, howner]
    show (w.stopTokens i k owner).isCancelled e.token = true
    simp only [World.stopTokens, hstopped]
    exact Cancellation.isCancelled_cancel_self hlt

theorem Stopped.kept {w w' : World} {i : Nat} {k owner : String} (h : Stopped w i k owner w')
    {j : Nat} {key : String} {e : Renewal} (he : w.registered? j key = some e)
    (htoken : e.token < w.tokens.nodes.length) :
    w'.registered? j key = some e ∨ w'.tokens.isCancelled e.token = true := by
  by_cases hk : j = i ∧ key = k
  · obtain ⟨rfl, rfl⟩ := hk
    by_cases howner : e.owner = owner
    · exact .inr (h.previous e he howner htoken)
    · exact .inl (by simp [h.registered, he, Option.filter_some, howner])
  · exact .inl ((h.others j key (Decidable.not_and_iff_or_not.mp hk)).trans he)

theorem Stopped.registered_of {w w' : World} {i : Nat} {k owner : String}
    (h : Stopped w i k owner w') {j : Nat} {key : String} {e : Renewal}
    (he : w'.registered? j key = some e) : w.registered? j key = some e := by
  by_cases hk : j = i ∧ key = k
  · obtain ⟨rfl, rfl⟩ := hk
    rw [h.registered, Option.filter_eq_some_iff] at he
    exact he.1
  · exact (h.others j key (Decidable.not_and_iff_or_not.mp hk)).symm.trans he

/-! ## A renewal that ends -/

/-- The world after a renewal is over: it is not registered any more. -/
structure Retired (w : World) (r : Renewing) (w' : World) : Prop where
  le : w.Le w'
  service : w'.service = w.service
  tokens : w'.tokens = w.tokens
  registered : w'.registered? r.manager r.key =
    (w.registered? r.manager r.key).filter (·.generation ≠ r.generation)
  others : ∀ j key, j ≠ r.manager ∨ key ≠ r.key → w'.registered? j key = w.registered? j key

theorem Manager.config_retire (m : Manager) (k : String) (generation : Nat) :
    (m.retire k generation).config = m.config := by
  unfold retire
  split
  · split <;> rfl
  · rfl

theorem Manager.nextGeneration_retire (m : Manager) (k : String) (generation : Nat) :
    (m.retire k generation).nextGeneration = m.nextGeneration := by
  unfold retire
  split
  · split <;> rfl
  · rfl

theorem Manager.find?_retire (m : Manager) (k : String) (generation : Nat) (j : String) :
    (m.retire k generation).renewals.find? j =
      if j = k then (m.renewals.find? k).filter (·.generation ≠ generation)
      else m.renewals.find? j := by
  unfold retire
  split
  next e he =>
    split
    next hgeneration =>
      by_cases hj : j = k <;> simp [hj, he, hgeneration, Table.find?_erase, Option.filter_some]
    next hgeneration => by_cases hj : j = k <;> simp [hj, he, hgeneration, Option.filter_some]
  next hnone => by_cases hj : j = k <;> simp [hj, hnone]

theorem retired_retire {w : World} {r : Renewing} (hr : r.manager < w.managers.length) :
    Retired w r (w.retire r) := by
  refine ⟨World.le_setManager hr (.refl _) (Manager.config_retire _ _ _) ?_, rfl, rfl, ?_,
    fun j key hne => ?_⟩
  · exact Nat.le_of_eq (Manager.nextGeneration_retire _ _ _).symm
  · rw [World.retire, World.registered?_setManager_self hr]
    exact (Manager.find?_retire _ _ _ _).trans (if_pos rfl)
  · by_cases hj : j = r.manager
    · subst hj
      have hkey : key ≠ r.key := by simpa using hne
      rw [World.retire, World.registered?_setManager_self hr, Manager.find?_retire, if_neg hkey]
      rfl
    · rw [World.retire, World.registered?_setManager_of_ne _ hj]

theorem Retired.kept {w w' : World} {r : Renewing} (h : Retired w r w') {j : Nat} {key : String}
    {e : Renewal} (he : w.registered? j key = some e) :
    w'.registered? j key = some e ∨ (r.manager = j ∧ r.generation = e.generation) := by
  by_cases hk : j = r.manager ∧ key = r.key
  · obtain ⟨rfl, rfl⟩ := hk
    by_cases hgeneration : e.generation = r.generation
    · exact .inr ⟨rfl, hgeneration.symm⟩
    · exact .inl (by simp [h.registered, he, Option.filter_some, hgeneration])
  · exact .inl ((h.others j key (Decidable.not_and_iff_or_not.mp hk)).trans he)

theorem Retired.registered_of {w w' : World} {r : Renewing} (h : Retired w r w') {j : Nat}
    {key : String} {e : Renewal} (he : w'.registered? j key = some e) :
    w.registered? j key = some e := by
  by_cases hk : j = r.manager ∧ key = r.key
  · obtain ⟨rfl, rfl⟩ := hk
    rw [h.registered, Option.filter_eq_some_iff] at he
    exact he.1
  · exact (h.others j key (Decidable.not_and_iff_or_not.mp hk)).symm.trans he

end Leasehold.Lock
