import Leasehold.Proofs.Lock.Registrations
import Leasehold.Proofs.Lock.Renaming
import Leasehold.Proofs.Simulation.Projection

/-!
# Locks on different keys are independent

If everything that has to do with other keys is left out of a run, then the rest is a
run: all that is left happens at the same instants with the same results, and at every
moment the key has the same value, the same time to live, the same renewals at all lock
managers, and the same requests were made for it (`keys_independent`).

The lock managers, the store and all that is in them are shared by all keys, and so are
the numbers of tokens and generations.  The two runs are compared under a `Renaming` of
those.  The turn of a process that has to do with the key is matched in the other run
(`matches_turn`), and the turn of any other process passes there without a difference
(`passes_turn`).
-/

namespace Leasehold

/-- The key that an errand is for. -/
def Errand.key : Errand → String
  | .single c => c.request.key
  | .comparing key _ _ => key
  | .deleting c => c.request.key

namespace Lock

open Simulation

/-! ## What has to do with a key -/

/-- Whether an action has to do with no other key. -/
def Action.keepsTo (k : String) : Action → Bool
  | .store a => a.keepsTo k
  | a => a.key?.all (· == k)

/-- Whether a process has to do with no other key. -/
def Process.keepsTo (k : String) : Process → Bool
  | .action a | .later _ a => a.keepsTo k
  | .attempting bid _ _ | .asking bid _ _ _ | .resting bid _ _ _ | .trying bid _ => bid.key == k
  | .releasing key _ _ => key == k
  | .renewing r _ => r.key == k
  | .store (.action a) => a.keepsTo k
  | .store (.errand e) => e.key == k
  | .store (.asleep _) => true

/-- An action that does not ask for a fresh owner of a key. -/
def Action.Explicit (k : String) : Action → Prop
  | .acquireDefault _ key _ _ => key ≠ k
  | _ => True

/-- A process that users may start: an action at a lock manager that exists, with an
explicit owner if it acquires the key. -/
def Process.Explicit (k : String) (w : World) : Process → Prop
  | .action a | .later _ a => a.Placed w ∧ a.Explicit k
  | _ => False

instance (k : String) (a : Action) : Decidable (a.Explicit k) :=
  match a with
  | .acquireDefault _ key _ _ => inferInstanceAs (Decidable ¬ key = k)
  | .acquire .. | .tryAcquire .. | .release .. | .cancel _ | .child .. | .config _ | .store _ =>
      inferInstanceAs (Decidable True)

instance (k : String) (w : World) (p : Process) : Decidable (p.Explicit k w) :=
  match p with
  | .action a | .later _ a => inferInstanceAs (Decidable (a.Placed w ∧ a.Explicit k))
  | .attempting .. | .asking .. | .resting .. | .trying .. | .releasing .. | .renewing ..
  | .store _ => inferInstanceAs (Decidable False)

/-- An action at one of `n` lock managers. -/
def Action.Among (n : Nat) (a : Action) : Prop := ∀ w : World, w.managers.length = n → a.Placed w

/-- A stage of a renewal for a key of some kind. -/
def RenewalStage.About (Q : String → Prop) : RenewalStage → Prop
  | .starting | .waiting .. => True
  | .refreshing _ _ e => e.About Q

section

variable {n : Nat} {k : String} {g g' : Renaming} {now : Instant} {w w' : World}

/-- Bids for the key that differ in their tokens, which stand for each other. -/
inductive Bid.Renamed (n : Nat) (k : String) (g : Renaming) : Bid → Bid → Prop where
  | mk {bid : Bid} {token' : Nat} : bid.key = k → bid.manager < n → g.token bid.token token' →
      Renamed n k g bid { bid with token := token' }

/-- Renewals of the key that differ in their tokens and generations. -/
inductive Renewing.Renamed (n : Nat) (k : String) (g : Renaming) : Renewing → Renewing → Prop where
  | mk {r : Renewing} {token' generation' : Nat} : r.key = k → r.manager < n →
      g.token r.token token' → g.generation r.manager r.generation generation' →
      Renamed n k g r { r with token := token', generation := generation' }

/-- How a process that has to do with no other key stands in both worlds. -/
inductive Process.Renamed (n : Nat) (k : String) (g : Renaming) : Process → Process → Prop where
  | action {a} : a.keepsTo k = true → a.Explicit k → a.Among n →
      Renamed n k g (.action a) (.action a)
  | later {due? a} : a.keepsTo k = true → a.Explicit k → a.Among n →
      Renamed n k g (.later due? a) (.later due? a)
  | attempting {bid bid' deadline? attempts} : bid.Renamed n k g bid' →
      Renamed n k g (.attempting bid deadline? attempts) (.attempting bid' deadline? attempts)
  | asking {bid bid' deadline? attempts e} : bid.Renamed n k g bid' → e.About (· = k) →
      Renamed n k g (.asking bid deadline? attempts e) (.asking bid' deadline? attempts e)
  | resting {bid bid' deadline? attempts due?} : bid.Renamed n k g bid' →
      Renamed n k g (.resting bid deadline? attempts due?) (.resting bid' deadline? attempts due?)
  | trying {bid bid' e} : bid.Renamed n k g bid' → e.About (· = k) →
      Renamed n k g (.trying bid e) (.trying bid' e)
  | releasing {key owner e} : e.About (· = k) →
      Renamed n k g (.releasing key owner e) (.releasing key owner e)
  | renewing {r r' stage} : r.Renamed n k g r' → stage.About (· = k) →
      Renamed n k g (.renewing r stage) (.renewing r' stage)
  | store {t} : t.KeepsTo k → Renamed n k g (.store t) (.store t)

/-- A process at one of `n` lock managers that has to do with another key. -/
def Process.Elsewhere (n : Nat) (k : String) : Process → Prop
  | .action a | .later _ a => a.keepsTo k = false ∧ a.Among n
  | .attempting bid _ _ | .resting bid _ _ _ => bid.key ≠ k ∧ bid.manager < n
  | .asking bid _ _ e | .trying bid e => (bid.key ≠ k ∧ bid.manager < n) ∧ e.About (· ≠ k)
  | .releasing _ _ e => e.About (· ≠ k)
  | .renewing r stage => (r.key ≠ k ∧ r.manager < n) ∧ stage.About (· ≠ k)
  | .store t => t.Elsewhere k

/-- A system with `n` lock managers, and the part of it that has to do with a key. -/
def atKey (n : Nat) (k : String) : Parting Renaming World Process where
  keeps := Process.keepsTo k
  admits := Process.Explicit k
  world g now w w' := w.Renamed n k g now w'
  process g p p' := p.Renamed n k g p'
  omitted p := p.Elsewhere n k

/-! ## Growing renamings -/

theorem Bid.Renamed.mono {bid bid' : Bid} (h : bid.Renamed n k g bid') (hg : g ≤ g') :
    bid.Renamed n k g' bid' := by
  cases h with
  | mk hkey hmanager htoken => exact .mk hkey hmanager (hg.1 _ _ htoken)

theorem Renewing.Renamed.mono {r r' : Renewing} (h : r.Renamed n k g r') (hg : g ≤ g') :
    r.Renamed n k g' r' := by
  cases h with
  | mk hkey hmanager htoken hgeneration =>
    exact .mk hkey hmanager (hg.1 _ _ htoken) (hg.2 _ _ _ hgeneration)

theorem Process.Renamed.mono {p p' : Process} (h : p.Renamed n k g p') (hg : g ≤ g') :
    p.Renamed n k g' p' := by
  cases h with
  | action hkeeps hexplicit hamong => exact .action hkeeps hexplicit hamong
  | later hkeeps hexplicit hamong => exact .later hkeeps hexplicit hamong
  | attempting hbid => exact .attempting (hbid.mono hg)
  | asking hbid he => exact .asking (hbid.mono hg) he
  | resting hbid => exact .resting (hbid.mono hg)
  | trying hbid he => exact .trying (hbid.mono hg) he
  | releasing he => exact .releasing he
  | renewing hr hstage => exact .renewing (hr.mono hg) hstage
  | store ht => exact .store ht

/-! ## Turns that are kept -/

theorem World.Renamed.isCancelled (h : w.Renamed n k g now w') {a b : Nat} (hab : g.token a b) :
    w'.tokens.isCancelled b = w.tokens.isCancelled a :=
  (h.tokens.cancelled hab).symm

/-- What goes on with the store does the same in both worlds. -/
theorem matches_within {χ α : Type} {t t' : Turn Service χ α} {Q : χ → Prop}
    (h : w.Renamed n k g now w') (ht : Turn.Alike (Service.AlikeAt k now) id t t') (hQ : t.Next Q)
    {next next' : χ → Process} (hnext : ∀ {q}, Q q → (next q).Renamed n k g (next' q))
    {done done' : World → α → Turn World Process Result}
    (hdone : ∀ {u u'} a, u.Renamed n k g now u' →
      ∃ g', g ≤ g' ∧ (atKey n k).Matches g' now (done u a) (done' u' a)) :
    ∃ g', g ≤ g' ∧ (atKey n k).Matches g' now (t.within w.withService next done)
      (t'.within w'.withService next' done') := by
  cases ht with
  | waits => exact ⟨g, le_rfl, .waits⟩
  | moves hs => exact ⟨g, le_rfl, .moves (h.withService hs) (hnext hQ)⟩
  | ends hs ha =>
    cases ha
    obtain ⟨g', hg, hmatch⟩ := hdone _ (h.withService hs)
    exact ⟨g', hg, hmatch.after _⟩

/-- An end that starts nothing. -/
theorem matches_ends {a : Result} {records : List Log.Record} (h : w.Renamed n k g now w') :
    (atKey n k).Matches g now (.ends w a [] records) (.ends w' a [] records) :=
  .ends h .nil (List.forall_mem_nil _)

/-- A bid for the key wins in both worlds. -/
theorem matches_won (h : w.Renamed n k g now w') {bid bid' : Bid} (hbid : bid.Renamed n k g bid')
    (attempts? : Option Nat) :
    ∃ g', g ≤ g' ∧
      (atKey n k).Matches g' now (won w now bid attempts?) (won w' now bid' attempts?) := by
  cases hbid with
  | @mk token' hkey hmanager htoken =>
    obtain ⟨g', hg, hheld, htoken', hgeneration⟩ := h.hold hmanager hkey htoken
    have hconfig := (h.manager bid.manager).config
    refine ⟨g', hg, ?_⟩
    simp only [won, World.hold_eq, ← hconfig]
    refine .ends hheld (.cons (.renewing (.mk hkey hmanager htoken' hgeneration) trivial) .nil) ?_
    intro p hp
    cases List.mem_singleton.mp hp
    exact beq_iff_eq.mpr hkey

theorem matches_attempted (h : w.Renamed n k g now w') {bid bid' : Bid}
    (hbid : bid.Renamed n k g bid') (deadline? : Option Instant) (attempts : Nat) (a : Answer) :
    ∃ g', g ≤ g' ∧ (atKey n k).Matches g' now (attempted w now bid deadline? attempts a)
      (attempted w' now bid' deadline? attempts a) := by
  cases a with
  | acquired => exact matches_won h hbid _
  | occupied | value | done | removed | failed =>
    have hrest : (rest w now bid deadline? attempts).Renamed n k g
        (rest w' now bid' deadline? attempts) := by
      cases hbid with
      | mk hkey hmanager htoken =>
        rw [rest, rest, ← (h.manager bid.manager).config]
        exact .resting (.mk hkey hmanager htoken)
    cases hbid
    exact ⟨g, le_rfl, .moves h hrest⟩

theorem matches_tried (h : w.Renamed n k g now w') {bid bid' : Bid} (hbid : bid.Renamed n k g bid')
    (a : Answer) :
    ∃ g', g ≤ g' ∧ (atKey n k).Matches g' now (tried w now bid a) (tried w' now bid' a) := by
  cases a with
  | acquired => exact matches_won h hbid none
  | occupied | value | done | removed | failed =>
    cases hbid
    exact ⟨g, le_rfl, matches_ends h⟩

theorem matches_begin (h : w.Renamed n k g now w') {a : Action} (hkeeps : a.keepsTo k = true)
    (hexplicit : a.Explicit k) (hamong : a.Among n) :
    ∃ g', g ≤ g' ∧ (atKey n k).Matches g' now (begin now w a) (begin now w' a) := by
  cases a with
  | acquire manager key owner lease timeout name =>
    have hkey : key = k := by simpa [Action.keepsTo, Action.key?] using hkeeps
    have hmanager : manager < n := h.managers.1 ▸ hamong w h.managers.1
    simp only [begin, acquire]
    cases wholeSeconds? lease with
    | none => exact ⟨g, le_rfl, matches_ends h⟩
    | some ttl =>
      obtain ⟨g', hg, htoken, hab⟩ := h.token name
      exact ⟨g', hg, .moves htoken (.attempting (.mk hkey hmanager hab))⟩
  | acquireDefault manager key timeout name =>
    have hkey : key = k := by simpa [Action.keepsTo, Action.key?] using hkeeps
    exact absurd hkey hexplicit
  | tryAcquire manager key owner lease name =>
    have hkey : key = k := by simpa [Action.keepsTo, Action.key?] using hkeeps
    have hmanager : manager < n := h.managers.1 ▸ hamong w h.managers.1
    simp only [begin, tryAcquire]
    cases wholeSeconds? lease with
    | none => exact ⟨g, le_rfl, matches_ends h⟩
    | some ttl =>
      obtain ⟨g', hg, htoken, hab⟩ := h.token name
      refine ⟨g', hg, ?_⟩
      simp only [htoken.service.errand]
      exact .moves htoken (.trying (.mk hkey hmanager hab) (Service.errand_about _ now hkey))
  | release manager key owner =>
    have hkey : key = k := by simpa [Action.keepsTo, Action.key?] using hkeeps
    have hmanager : manager < n := h.managers.1 ▸ hamong w h.managers.1
    subst hkey
    have herrand := h.service.errand (.deleteIfEquals key owner)
    refine ⟨g, le_rfl, ?_⟩
    show (atKey n key).Matches g now
      (.moves (w.stop manager key owner)
        (.releasing key owner (w.service.errand now (.deleteIfEquals key owner))) [])
      (.moves (w'.stop manager key owner)
        (.releasing key owner (w'.service.errand now (.deleteIfEquals key owner))) [])
    rw [herrand]
    exact .moves (h.stop hmanager owner) (.releasing (Service.errand_about _ now rfl))
  | cancel name =>
    obtain ⟨g', hg, hcancel⟩ := h.cancel name
    exact ⟨g', hg, matches_ends hcancel⟩
  | child parent name =>
    obtain ⟨g', hg, hchild⟩ := h.childToken parent name
    exact ⟨g', hg, matches_ends hchild⟩
  | config manager =>
    refine ⟨g, le_rfl, ?_⟩
    simp only [begin, ← (h.manager manager).config]
    exact matches_ends h
  | store a => exact ⟨g, le_rfl, .moves h (.store hkeeps)⟩

theorem matches_renewalTurn (h : w.Renamed n k g now w') {r r' : Renewing}
    (hr : r.Renamed n k g r') {stage : RenewalStage} (hstage : stage.About (· = k)) :
    ∃ g', g ≤ g' ∧
      (atKey n k).Matches g' now (renewalTurn now w r stage) (renewalTurn now w' r' stage) := by
  cases hr with
  | @mk token' generation' hkey hmanager htoken hgeneration =>
    have hgoes : ∀ stage' : RenewalStage, stage'.About (· = k) →
        (Process.renewing r stage').Renamed n k g
          (.renewing { r with token := token', generation := generation' } stage') :=
      fun _ hstage' => .renewing (.mk hkey hmanager htoken hgeneration) hstage'
    have hends : ∀ e, (atKey n k).Matches g now (renewalEnds w r e)
        (renewalEnds w' { r with token := token', generation := generation' } e) :=
      fun e => matches_ends (h.retire hmanager hkey hgeneration token')
    cases stage with
    | starting =>
      refine ⟨g, le_rfl, ?_⟩
      simp only [renewalTurn]
      split
      · exact hends _
      · exact .moves h (hgoes _ trivial)
    | waiting cycle tick? =>
      refine ⟨g, le_rfl, ?_⟩
      simp only [renewalTurn, h.isCancelled htoken]
      split
      · exact hends _
      split
      · exact hends _
      split
      · exact .waits
      split
      · rw [h.service.errand]
        exact .moves h (hgoes _ (Service.errand_about _ now hkey))
      · exact .waits
    | refreshing cycle next? e =>
      simp only [renewalTurn]
      exact matches_within h (h.service.turn hstage) (Service.turn_next hstage)
        (fun {e} he => hgoes (.refreshing cycle next? e) he)
        fun _ h => ⟨g, le_rfl, .moves h (hgoes _ trivial)⟩

/-- A process that is kept has the same turn in both worlds. -/
theorem matches_turn (h : w.Renamed n k g now w') {p p' : Process} (hp : p.Renamed n k g p') :
    ∃ g', g ≤ g' ∧ (atKey n k).Matches g' now (turn now w p) (turn now w' p') := by
  cases hp with
  | action hkeeps hexplicit hamong => exact matches_begin h hkeeps hexplicit hamong
  | later hkeeps hexplicit hamong =>
    refine ⟨g, le_rfl, ?_⟩
    simp only [turn]
    split
    · exact .moves h (.action hkeeps hexplicit hamong)
    · exact .waits
  | attempting hbid =>
    cases hbid with
    | mk hkey hmanager htoken =>
      refine ⟨g, le_rfl, ?_⟩
      simp only [turn, h.isCancelled htoken]
      split
      · exact matches_ends h
      · rw [h.service.errand]
        exact .moves h (.asking (.mk hkey hmanager htoken) (Service.errand_about _ now hkey))
  | asking hbid he =>
    simp only [turn]
    exact matches_within h (h.service.turn he) (Service.turn_next he) (fun he => .asking hbid he)
      fun a h => matches_attempted h hbid _ _ a
  | resting hbid =>
    cases hbid with
    | mk hkey hmanager htoken =>
      refine ⟨g, le_rfl, ?_⟩
      simp only [turn, h.isCancelled htoken]
      split
      · exact matches_ends h
      split
      · exact .moves h (.attempting (.mk hkey hmanager htoken))
      · exact .waits
  | trying hbid he =>
    simp only [turn]
    exact matches_within h (h.service.turn he) (Service.turn_next he) (fun he => .trying hbid he)
      fun a h => matches_tried h hbid a
  | releasing he =>
    simp only [turn]
    exact matches_within h (h.service.turn he) (Service.turn_next he) (fun he => .releasing he)
      fun _ h => ⟨g, le_rfl, matches_ends h⟩
  | renewing hr hstage => exact matches_renewalTurn h hr hstage
  | store ht =>
    simp only [turn]
    exact matches_within h (h.service.taskTurn ht) (Service.taskTurn_next ht) (fun ht => .store ht)
      fun _ h => ⟨g, le_rfl, matches_ends h⟩

/-! ## Turns that are left out -/

/-- What goes on with the store for another key makes no difference. -/
theorem passes_within {χ α : Type} {t : Turn Service χ α} {Q : χ → Prop}
    (h : w.Renamed n k g now w') (ht : t.Leaves (·.AlikeAt k now w.service)) (hQ : t.Next Q)
    {next : χ → Process} (hnext : ∀ {q}, Q q → (next q).Elsewhere n k)
    {done : World → α → Turn World Process Result}
    (hdone : ∀ {u} a, u.Renamed n k g now w' → (atKey n k).Passes g now w' (done u a)) :
    (atKey n k).Passes g now w' (t.within w.withService next done) := by
  cases t with
  | waits => trivial
  | moves s q => exact ⟨h.withService_left ht, hnext hQ⟩
  | ends s a => exact (hdone a (h.withService_left ht)).after _

theorem passes_ends {a : Result} {records : List Log.Record} (h : w.Renamed n k g now w') :
    (atKey n k).Passes g now w' (.ends w a [] records) :=
  ⟨h, List.forall_mem_nil _⟩

/-- A bid for another key wins. -/
theorem passes_won (h : w.Renamed n k g now w') {bid : Bid}
    (hbid : bid.key ≠ k ∧ bid.manager < n) (attempts? : Option Nat) :
    (atKey n k).Passes g now w' (won w now bid attempts?) := by
  refine ⟨h.hold_left hbid.2 hbid.1, fun p hp => ?_⟩
  cases List.mem_singleton.mp hp
  exact ⟨⟨hbid, trivial⟩, beq_eq_false_iff_ne.mpr hbid.1⟩

theorem passes_acquire (h : w.Renamed n k g now w') {manager : Nat} {key : String}
    (hkey : key ≠ k ∧ manager < n) (owner : String) (lease timeout : Duration) (name : String) :
    (atKey n k).Passes g now w' (acquire w now manager key owner lease timeout name) := by
  unfold acquire
  cases wholeSeconds? lease with
  | none => exact passes_ends h
  | some ttl => exact ⟨h.token_left name, hkey⟩

theorem passes_begin (h : w.Renamed n k g now w') {a : Action} (hkeeps : a.keepsTo k = false)
    (hamong : a.Among n) : (atKey n k).Passes g now w' (begin now w a) := by
  have hplaced := hamong w h.managers.1
  cases a with
  | acquire manager key owner lease timeout name =>
    have hkey : key ≠ k := by simpa [Action.keepsTo, Action.key?] using hkeeps
    exact passes_acquire h ⟨hkey, h.managers.1 ▸ hplaced⟩ ..
  | acquireDefault manager key timeout name =>
    have hkey : key ≠ k := by simpa [Action.keepsTo, Action.key?] using hkeeps
    exact passes_acquire (h.owners_left w.owners.take.2) ⟨hkey, h.managers.1 ▸ hplaced⟩ ..
  | tryAcquire manager key owner lease name =>
    have hkey : key ≠ k := by simpa [Action.keepsTo, Action.key?] using hkeeps
    simp only [begin, tryAcquire]
    cases wholeSeconds? lease with
    | none => exact passes_ends h
    | some ttl =>
      exact ⟨h.token_left name, ⟨hkey, h.managers.1 ▸ hplaced⟩, Service.errand_about _ now hkey⟩
  | release manager key owner =>
    have hkey : key ≠ k := by simpa [Action.keepsTo, Action.key?] using hkeeps
    exact ⟨h.stop_left (h.managers.1 ▸ hplaced) hkey owner, Service.errand_about _ now hkey⟩
  | store a => exact ⟨h, hkeeps⟩
  | cancel | child | config => cases hkeeps

theorem passes_renewalTurn (h : w.Renamed n k g now w') {r : Renewing}
    (hr : r.key ≠ k ∧ r.manager < n) {stage : RenewalStage} (hstage : stage.About (· ≠ k)) :
    (atKey n k).Passes g now w' (renewalTurn now w r stage) := by
  have hends : ∀ e, (atKey n k).Passes g now w' (renewalEnds w r e) := fun e =>
    passes_ends (h.retire_left hr.2 hr.1)
  cases stage with
  | starting =>
    simp only [renewalTurn]
    split
    · exact hends _
    · exact ⟨h, hr, trivial⟩
  | waiting cycle tick? =>
    simp only [renewalTurn]
    split
    · exact hends _
    split
    · exact hends _
    split
    · trivial
    split
    · exact ⟨h, hr, Service.errand_about _ now hr.1⟩
    · trivial
  | refreshing cycle next? e =>
    simp only [renewalTurn]
    refine passes_within h (Service.turn_leaves hstage) (Service.turn_next hstage) ?_
      fun _ h => ⟨h, hr, trivial⟩
    exact fun he => ⟨hr, he⟩

/-- A process that is left out makes no difference. -/
theorem passes_turn (h : w.Renamed n k g now w') {p : Process} (hp : p.Elsewhere n k) :
    (atKey n k).Passes g now w' (turn now w p) := by
  cases p with
  | action a => exact passes_begin h hp.1 hp.2
  | later due? a =>
    simp only [turn]
    split
    · exact ⟨h, hp⟩
    · trivial
  | attempting bid deadline? attempts =>
    simp only [turn]
    split
    · exact passes_ends h
    · exact ⟨h, hp, Service.errand_about _ now hp.1⟩
  | asking bid deadline? attempts e =>
    simp only [turn]
    refine passes_within h (Service.turn_leaves hp.2) (Service.turn_next hp.2) ?_ fun a h => ?_
    · exact fun he => ⟨hp.1, he⟩
    cases a with
    | acquired => exact passes_won h hp.1 _
    | occupied | value | done | removed | failed => exact ⟨h, hp.1⟩
  | resting bid deadline? attempts due? =>
    simp only [turn]
    split
    · exact passes_ends h
    split
    · exact ⟨h, hp⟩
    · trivial
  | trying bid e =>
    simp only [turn]
    refine passes_within h (Service.turn_leaves hp.2) (Service.turn_next hp.2) ?_ fun a h => ?_
    · exact fun he => ⟨hp.1, he⟩
    cases a with
    | acquired => exact passes_won h hp.1 none
    | occupied | value | done | removed | failed => exact passes_ends h
  | releasing key owner e =>
    simp only [turn]
    exact passes_within h (Service.turn_leaves hp) (Service.turn_next hp) id
      fun _ h => passes_ends h
  | renewing r stage => exact passes_renewalTurn h hp.1 hp.2
  | store t =>
    simp only [turn]
    exact passes_within h (Service.taskTurn_leaves hp) (Service.taskTurn_next_elsewhere hp) id
      fun _ h => passes_ends h

/-! ## Both runs -/

theorem Action.Placed.among {a : Action} (h : a.Placed w) (hn : w.managers.length = n) :
    a.Among n := by
  intro u hu
  cases a with
  | acquire | acquireDefault | tryAcquire | release =>
    exact Nat.lt_of_lt_of_eq h (hn.trans hu.symm)
  | cancel | child | config | store => trivial

/-- A process that users may start. -/
theorem Process.Explicit.cases {p : Process} (h : p.Explicit k w) :
    ∃ a, (p = .action a ∨ ∃ due?, p = .later due? a) ∧ a.Placed w ∧ a.Explicit k := by
  cases p with
  | action a => exact ⟨a, .inl rfl, h⟩
  | later due? a => exact ⟨a, .inr ⟨due?, rfl⟩, h⟩
  | attempting | asking | resting | trying | releasing | renewing | store => cases h

/-- What has to do with other keys can be left out. -/
theorem atKey_sound (n : Nat) (k : String) : (atKey n k).Sound turn where
  mono hg hp := hp.mono hg
  later hle hw := hw.later hle
  admitted {g now w w' p} hw hp hkeeps := by
    obtain ⟨a, hcases, hplaced, hexplicit⟩ := Process.Explicit.cases hp
    have hamong := hplaced.among hw.managers.1
    obtain rfl | ⟨due?, rfl⟩ := hcases
    · exact ⟨⟨hamong w' hw.managers.2, hexplicit⟩, .action hkeeps hexplicit hamong⟩
    · exact ⟨⟨hamong w' hw.managers.2, hexplicit⟩, .later hkeeps hexplicit hamong⟩
  left hw hp hkeeps := by
    obtain ⟨a, hcases, hplaced, -⟩ := Process.Explicit.cases hp
    have hamong := hplaced.among hw.managers.1
    obtain rfl | ⟨due?, rfl⟩ := hcases
    · exact ⟨hkeeps, hamong⟩
    · exact ⟨hkeeps, hamong⟩
  matched hw hp := matches_turn hw hp
  passed hw hp := passes_turn hw hp

/-- A system of new lock managers: nothing was done with them yet, and no cancellation
token has a name.  The store may be in any state. -/
structure New (s : Locks) : Prop extends Blank s where
  names : s.world.names = ∅

/-- The two runs begin in the same system. -/
theorem New.projects {s : Locks} (h : New s) (k : String) (kept : Nat → Bool) :
    (atKey s.world.managers.length k).Projects kept ⟨fun _ _ => False, fun _ _ _ => False⟩ s s := by
  refine .of_nil h.processes ⟨.refl k _ _, .nil _ _, fun name => ?_, ⟨rfl, rfl⟩, fun i => ?_,
    fun i j e _ he => ?_⟩
  · rw [h.names]
    exact .unknown rfl rfl
  · have hnone : (s.world.manager i).renewals.find? k = none := h.registered i k
    refine ⟨rfl, ?_, nofun, nofun, nofun⟩
    rw [hnone]
    exact .none
  · cases (h.registered i j).symm.trans he

/-- Two systems that cannot be told apart, now or later, by who looks at one key. -/
structure SameAt (k : String) (s s' : Locks) : Prop where
  now : s'.now = s.now
  value? : ∀ t, s.now ≤ t → s'.world.service.value? t k = s.world.service.value? t k
  ttl? : ∀ t, s.now ≤ t → s'.world.service.ttl? t k = s.world.service.ttl? t k
  renewing : ∀ i, (s'.world.manager i).renewing k = (s.world.manager i).renewing k
  requests : s'.world.service.store.requests.filter (·.key = k) =
    s.world.service.store.requests.filter (·.key = k)
  answered : s'.world.service.journal.filter (·.request.key = k) =
    s.world.service.journal.filter (·.request.key = k)

theorem World.Renamed.sameAt {s s' : Locks} (h : s.world.Renamed n k g s.now s'.world)
    (hnow : s'.now = s.now) : SameAt k s s' where
  now := hnow
  value? _ ht := (h.service.later ht).value?.symm
  ttl? _ ht := (h.service.later ht).ttl?.symm
  renewing i := (h.manager i).renewing
  requests := h.service.requests.symm
  answered := h.service.answered.symm

end

/-- Which processes of a run have to do with no other key, by their numbers. -/
def keptAt (k : String) (s : Locks) (cs : List (Choice Process)) : Nat → Bool :=
  keptOf (Process.keepsTo k) (s.joined turn cs)

/-- A run, and the same run without everything that has to do with keys other than `k`.
Both are possible, and whoever is left ends with the same result at the same instant. -/
structure RunsBeside (k : String) (schedule : Schedule) (kept : Nat → Bool) (s s' : Locks)
    (cs : List (Choice Process)) (es : List (Ending Result)) (t t' : Locks) : Prop where
  whole : History turn (schedule.admitting turn (Process.Explicit k)) s cs es t
  part : History turn (schedule.admitting turn (Process.Explicit k)) s'
    (cs.filterMap (·.project (Process.keepsTo k) kept)) (es.filterMap (·.project kept)) t'

/-- Locks on different keys are independent.  If everything that has to do with keys
other than `k` is left out of a run, then the rest is a run of the same system, with
the same results at the same instants.  Whatever system the one run passes through, the
other passes through one in which `k` has the same value, the same time to live and the
same renewals, and in which the same requests for `k` were made. -/
theorem keys_independent {k : String} {schedule : Schedule} {s t : Locks}
    {cs : List (Choice Process)} {es : List (Ending Result)} (hs : New s)
    (hrun : History turn (schedule.admitting turn (Process.Explicit k)) s cs es t) :
    ∃ t', RunsBeside k schedule (keptAt k s cs) s s cs es t t' ∧ SameAt k t t' ∧
      ∀ cs₁ cs₂, cs = cs₁ ++ cs₂ → ∃ es₁ es₂ u u', es = es₁ ++ es₂ ∧
        RunsBeside k schedule (keptAt k s cs) s s cs₁ es₁ u u' ∧ SameAt k u u' ∧
        RunsBeside k schedule (keptAt k s cs) u u' cs₂ es₂ t t' := by
  have hsound := atKey_sound s.world.managers.length k
  have hstart := hs.projects k (keptAt k s cs)
  have hsettles : Settles (Process.keepsTo k) (keptAt k s cs) s.processes.length
      (s.joined turn cs) := by
    rw [hs.processes]
    exact settles_keptOf _ _
  obtain ⟨g, t', -, hrun', ht⟩ := hsound.history hstart hrun hsettles
  refine ⟨t', ⟨hrun, hrun'⟩, ht.world.sameAt ht.now, ?_⟩
  rintro cs₁ cs₂ rfl
  obtain ⟨es₁, es₂, u, rfl, hfirst, hrest⟩ := hrun.split
  obtain ⟨g₁, u', t₁, hfirst', hrest', hu⟩ := hsound.passing hstart hfirst hrest hsettles
  -- The two parts lead where the whole leads, for their choices are the same.
  have hwhole := hfirst'.append hrest'
  rw [← List.filterMap_append, ← List.filterMap_append] at hwhole
  obtain ⟨-, rfl⟩ := hwhole.unique hrun'
  exact ⟨es₁, es₂, u, u', rfl, ⟨hfirst, hfirst'⟩, hu.world.sameAt hu.now, ⟨hrest, hrest'⟩⟩

theorem new_single : New single := ⟨fresh_single.blank, rfl⟩

/-- Two keys are acquired with the same cancellation token.  After five seconds both are
renewed; then one of them is released, and the token is cancelled. -/
def shared : List (Choice Process) :=
  [.start (.action (.tryAcquire 0 "j" "b" (.ofSeconds 10) "x")),
    .start (.action (.acquire 0 "k" "a" (.ofSeconds 10) .zero "x")),
    .turn 0, .turn 0, .turn 1, .turn 1, .turn 1, .turn 2, .turn 3,
    .pass { nanos := 5000000000 }, .turn 2, .turn 3, .turn 2, .turn 3,
    .start (.action (.release 0 "j" "b")), .turn 4, .turn 4, .turn 2,
    .start (.action (.cancel "x")), .turn 5, .turn 3]

/-- Without the other key the acquisition, the cancellation and the renewal end as they
did. -/
theorem keys_independent_shared :
    ∃ es t t' l l',
      History turn (Schedule.prompt.admitting turn (Process.Explicit "k")) single shared es t ∧
      es = [⟨0, .lease l, .epoch⟩, ⟨1, .lease l', .epoch⟩, ⟨4, .ok, { nanos := 5000000000 }⟩,
        ⟨2, .ok, { nanos := 5000000000 }⟩, ⟨5, .ok, { nanos := 5000000000 }⟩,
        ⟨3, .ok, { nanos := 5000000000 }⟩] ∧
      History turn (Schedule.prompt.admitting turn (Process.Explicit "k")) single
        (shared.filterMap (·.project (Process.keepsTo "k") (keptAt "k" single shared)))
        [⟨0, .lease l', .epoch⟩, ⟨2, .ok, { nanos := 5000000000 }⟩,
          ⟨1, .ok, { nanos := 5000000000 }⟩] t' ∧
      SameAt "k" t t' := by
  obtain ⟨t, ht⟩ : ∃ t, single.follow? turn
      (Schedule.prompt.admitting turn (Process.Explicit "k")) shared = some t :=
    Option.isSome_iff_exists.mp (by decide +kernel)
  have hrun := History.of_follow? shared ht
  obtain ⟨es, l, l', hends, hes⟩ : ∃ es l l', single.endings turn shared = es ∧
      es = [⟨0, .lease l, .epoch⟩, ⟨1, .lease l', .epoch⟩, ⟨4, .ok, { nanos := 5000000000 }⟩,
        ⟨2, .ok, { nanos := 5000000000 }⟩, ⟨5, .ok, { nanos := 5000000000 }⟩,
        ⟨3, .ok, { nanos := 5000000000 }⟩] :=
    ⟨_, _, _, rfl, rfl⟩
  rw [hends] at hrun
  obtain ⟨t', hbeside, hsame, -⟩ := keys_independent new_single hrun
  have hkept : ∀ i < 6, keptAt "k" single shared i = decide (i = 1 ∨ i = 3 ∨ i = 5) := by
    decide +kernel
  have hrank : rank (keptAt "k" single shared) 1 = 0 ∧ rank (keptAt "k" single shared) 3 = 1 ∧
      rank (keptAt "k" single shared) 5 = 2 := by
    decide +kernel
  have hpart : es.filterMap (·.project (keptAt "k" single shared)) =
      [⟨0, .lease l', .epoch⟩, ⟨2, .ok, { nanos := 5000000000 }⟩,
        ⟨1, .ok, { nanos := 5000000000 }⟩] := by
    rw [hes]
    simp [Ending.project, hkept, hrank]
  exact ⟨es, t, t', l, l', hrun, hes, hpart ▸ hbeside.part, hsame⟩

end Lock

end Leasehold
