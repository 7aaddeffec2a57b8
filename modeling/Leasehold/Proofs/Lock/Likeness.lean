import Leasehold.Proofs.Lock.Runs
import Leasehold.Proofs.Store.Likeness

/-!
# Worlds that look alike

Two worlds are alike if they differ in their services only, and these are alike but
for a request `x` that is no refresh.  No process can tell which of the two it is in
(`World.Alike.turn`).

A name that has a token is known in both worlds, and stays known.
-/

namespace Leasehold.Lock

open Simulation

/-- Two worlds that differ in their services, which are alike but for a request, and
in which a name is known. -/
inductive World.Alike (x : Request) (known : String) (now : Instant) : World → World → Prop where
  | mk {w : World} {service : Service} :
      w.service.Alike x now service → w.names.contains known = true →
      Alike x known now w (w.withService service)

/-- A result when requests for `x` are not looked at. -/
def Result.seen (x : Request) : Result → Result
  | .store r => .store (r.seen x)
  | r => r

section

variable {x : Request} {known : String} {now : Instant} {w w' : World}

/-! ## Names -/

theorem World.token_withService (w : World) (service : Service) (name : String) :
    (w.withService service).token name =
      ((w.token name).1, (w.token name).2.withService service) := by
  simp only [token, withService]
  cases w.names.find? name with
  | some token => rfl
  | none => rfl

theorem World.cancel_withService (w : World) (service : Service) (name : String) :
    (w.withService service).cancel name = (w.cancel name).withService service := by
  simp only [World.cancel, token_withService]
  rfl

theorem World.childToken_withService (w : World) (service : Service) (parent name : String) :
    (w.withService service).childToken parent name =
      (w.childToken parent name).withService service := by
  simp only [childToken, token_withService]
  rfl

theorem World.contains_token (h : w.names.contains known = true) (name : String) :
    (w.token name).2.names.contains known = true := by
  unfold token
  split
  · exact h
  · exact Table.contains_insert_of_contains h

theorem World.contains_token_self (w : World) (name : String) :
    (w.token name).2.names.contains name = true := by
  unfold token
  split
  next h => rw [Table.contains, h, Option.isSome_some]
  next => rw [Table.contains, Table.find?_insert_self, Option.isSome_some]

theorem World.token_of_contains {name : String} (h : w.names.contains name = true) :
    (w.token name).2 = w := by
  unfold token
  split
  next => rfl
  next hnone => simp [Table.contains, hnone] at h

/-! ## Turns -/

namespace World.Alike

theorem service (h : w.Alike x known now w') : w.service.Alike x now w'.service := by
  cases h with
  | mk hservice => exact hservice

theorem contains (h : w.Alike x known now w') : w.names.contains known = true := by
  cases h with
  | mk _ hnames => exact hnames

theorem managers (h : w.Alike x known now w') : w'.managers = w.managers := by
  cases h
  rfl

theorem refl (x : Request) (h : w.names.contains known = true) (now : Instant) :
    w.Alike x known now w :=
  .mk (.refl x now w.service) h

theorem isCancelled (h : w.Alike x known now w') (token : Nat) :
    w'.tokens.isCancelled token = w.tokens.isCancelled token := by
  cases h
  rfl

theorem later {t : Instant} (h : w.Alike x known now w') (hle : now ≤ t) :
    w.Alike x known t w' := by
  cases h with
  | mk hservice hnames => exact .mk (hservice.later hle) hnames

theorem withService (h : w.Alike x known now w') {s s' : Service} (hs : s.Alike x now s') :
    (w.withService s).Alike x known now (w'.withService s') := by
  cases h with
  | mk _ hnames => exact .mk (w := w.withService s) hs hnames

/-- A service that is alike what it was does not matter. -/
theorem of_service (h : w.Alike x known now w') {s : Service} (hs : s.Alike x now w.service) :
    (w.withService s).Alike x known now w' := by
  cases h with
  | mk hservice hnames => exact .mk (w := w.withService s) (hs.trans hservice) hnames

theorem token (h : w.Alike x known now w') (name : String) :
    (w'.token name).1 = (w.token name).1 ∧
      (w.token name).2.Alike x known now (w'.token name).2 := by
  cases h with
  | mk hservice hnames =>
    rw [World.token_withService]
    refine ⟨rfl, .mk ?_ (World.contains_token hnames name)⟩
    rw [(w.quiet_token name).service]
    exact hservice

theorem won (h : w.Alike x known now w') (bid : Bid) (attempts? : Option Nat) :
    Turn.Alike (World.Alike x known now) (Result.seen x) (won w now bid attempts?)
      (won w' now bid attempts?) := by
  cases h with
  | mk hservice hnames =>
    exact .ends (.mk (w := (w.hold now bid).2.2) hservice hnames) rfl

theorem acquire (h : w.Alike x known now w') (manager : Nat) (key owner : String)
    (lease timeout : Duration) (name : String) :
    Turn.Alike (World.Alike x known now) (Result.seen x)
      (acquire w now manager key owner lease timeout name)
      (acquire w' now manager key owner lease timeout name) := by
  unfold Lock.acquire
  split
  · exact .ends h rfl
  · obtain ⟨htoken, h⟩ := h.token name
    simp only [htoken]
    exact .moves h

theorem tryAcquire (h : w.Alike x known now w') (manager : Nat) (key owner : String)
    (lease : Duration) (name : String) :
    Turn.Alike (World.Alike x known now) (Result.seen x)
      (tryAcquire w now manager key owner lease name)
      (tryAcquire w' now manager key owner lease name) := by
  unfold Lock.tryAcquire
  split
  · exact .ends h rfl
  · obtain ⟨htoken, h⟩ := h.token name
    simp only [htoken, h.service.errand]
    exact .moves h

theorem begin (h : w.Alike x known now w') (a : Action) :
    Turn.Alike (World.Alike x known now) (Result.seen x) (begin now w a) (begin now w' a) := by
  cases a with
  | acquire manager key owner lease timeout name => exact h.acquire ..
  | acquireDefault manager key timeout name =>
    cases h with
    | mk hservice hnames =>
      exact acquire (.mk (w := { w with owners := w.owners.take.2 }) hservice hnames) ..
  | tryAcquire manager key owner lease name => exact h.tryAcquire ..
  | release manager key owner =>
    cases h with
    | @mk service hservice hnames =>
      have herrand := hservice.errand (.deleteIfEquals key owner)
      show Turn.Alike _ _ (.moves (w.stop manager key owner)
          (Process.releasing key owner (w.service.errand now (.deleteIfEquals key owner))) [])
        (.moves ((w.stop manager key owner).withService service)
          (Process.releasing key owner (service.errand now (.deleteIfEquals key owner))) [])
      rw [herrand]
      exact .moves (.mk (w := w.stop manager key owner) hservice hnames)
  | cancel name =>
    cases h with
    | mk hservice hnames =>
      simp only [Lock.begin, cancel_withService]
      refine .ends (.mk ?_ (contains_token hnames name)) rfl
      rw [(w.quiet_cancel name).service]
      exact hservice
  | child parent name =>
    cases h with
    | mk hservice hnames =>
      simp only [Lock.begin, childToken_withService]
      refine .ends (.mk ?_ (Table.contains_insert_of_contains (contains_token hnames parent))) rfl
      rw [(w.quiet_childToken parent name).service]
      exact hservice
  | config manager =>
    cases h with
    | mk hservice hnames => exact .ends (.mk hservice hnames) rfl
  | store a => exact .moves h

theorem renewalEnds (h : w.Alike x known now w') (r : Renewing) (e : Event) :
    Turn.Alike (World.Alike x known now) (Result.seen x) (renewalEnds w r e)
      (renewalEnds w' r e) := by
  cases h with
  | mk hservice hnames => exact .ends (.mk (w := w.retire r) hservice hnames) rfl

theorem renewalTurn (h : w.Alike x known now w') (r : Renewing) (stage : RenewalStage) :
    Turn.Alike (World.Alike x known now) (Result.seen x) (renewalTurn now w r stage)
      (renewalTurn now w' r stage) := by
  cases stage with
  | starting =>
    simp only [Lock.renewalTurn]
    split
    · exact h.renewalEnds r _
    · exact .moves h
  | waiting cycle tick? =>
    simp only [Lock.renewalTurn, h.isCancelled]
    split
    · exact h.renewalEnds r _
    split
    · exact h.renewalEnds r _
    split
    · exact .waits
    split
    · rw [h.service.errand]
      exact .moves h
    · exact .waits
  | refreshing cycle next? e =>
    simp only [Lock.renewalTurn]
    refine (h.service.turn e).within h.withService fun hs ha => ?_
    cases ha
    exact .moves (h.withService hs)

theorem attempted (h : w.Alike x known now w') (bid : Bid) (deadline? : Option Instant)
    (attempts : Nat) (a : Answer) :
    Turn.Alike (World.Alike x known now) (Result.seen x)
      (attempted w now bid deadline? attempts a) (attempted w' now bid deadline? attempts a) := by
  cases a with
  | acquired => exact h.won bid _
  | occupied | value | done | removed | failed =>
    cases h with
    | mk hservice hnames => exact .moves (.mk hservice hnames)

/-- No process can tell the worlds apart. -/
theorem turn (h : w.Alike x known now w') (hx : x.kind ≠ .refresh) (p : Process) :
    Turn.Alike (World.Alike x known now) (Result.seen x) (turn now w p) (turn now w' p) := by
  cases p with
  | action a => exact h.begin a
  | later due? a =>
    simp only [Lock.turn]
    split
    · exact .moves h
    · exact .waits
  | attempting bid deadline? attempts =>
    simp only [Lock.turn, h.isCancelled]
    split
    · exact .ends h rfl
    · rw [h.service.errand]
      exact .moves h
  | asking bid deadline? attempts e =>
    simp only [Lock.turn]
    refine (h.service.turn e).within h.withService fun hs ha => ?_
    cases ha
    exact (h.withService hs).attempted ..
  | resting bid deadline? attempts due? =>
    simp only [Lock.turn, h.isCancelled]
    split
    · exact .ends h rfl
    split
    · exact .moves h
    · exact .waits
  | trying bid e =>
    simp only [Lock.turn]
    refine (h.service.turn e).within h.withService fun {_ _ a _} hs ha => ?_
    cases ha
    have h := h.withService hs
    cases a with
    | acquired => exact h.won bid none
    | occupied | value | done | removed | failed => exact .ends h rfl
  | releasing key owner e =>
    simp only [Lock.turn]
    refine (h.service.turn e).within h.withService fun hs ha => ?_
    cases ha
    exact .ends (h.withService hs) rfl
  | renewing r stage => exact h.renewalTurn r stage
  | store t =>
    simp only [Lock.turn]
    refine (h.service.taskTurn hx t).within h.withService fun hs ha => ?_
    exact .ends (h.withService hs) (congrArg Result.store ha)

end World.Alike

end

end Leasehold.Lock
