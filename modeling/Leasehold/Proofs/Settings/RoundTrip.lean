import Leasehold.Proofs.Json.Value
import Leasehold.Proofs.Time.Spelled
import Leasehold.Settings.Json

/-!
# Settings are read as they were written

A text `ComesBack` through a reader as a value if the reader takes the value from what the text is
read as.  Durations, words, texts and policies come back (`duration_comesBack` and so on), and a
structure does if each of its fields does (`Puts.comesBack`).  So settings that were written in
JSON are read as the same settings, section by section and as a whole (`reads_what_was_written`).
-/

namespace Leasehold.Settings

open Json (Value Written WrittenMember)

variable {β σ : Type}

/-- A written text is read as a value. -/
def ComesBack (read : Value → Reading β) (cs : List Char) (b : β) : Prop :=
  ∃ v, Written cs v ∧ read v = .ok b

/-- A text that comes back is read with nothing behind it. -/
theorem ComesBack.ofJson_eq {read : Value → Reading β} {cs : List Char} {b : β}
    (h : ComesBack read cs b) : ofJson read cs = .ok b := by
  obtain ⟨v, hwritten, hread⟩ := h
  simp only [ofJson, hwritten.read_eq, hread]
  rfl

/-! ## Single values -/

theorem duration_comesBack (d : Duration) :
    ComesBack (fun v => (jsonFormat.shape v).duration) (Json.durationOf d) d := by
  refine ⟨_, Json.written_text d.spelled, ?_⟩
  show Shape.duration (.text d.spelled) = .ok d
  rw [Shape.duration, Duration.ofSpelled?_spelled]

theorem string_comesBack (s : String) :
    ComesBack (fun v => (jsonFormat.shape v).string) (Json.textOf s.toList) s :=
  ⟨_, Json.written_text s, rfl⟩

theorem optionalString_comesBack (s? : Option String) :
    ComesBack (fun v => (jsonFormat.shape v).optionalString) (Json.optionalTextOf s?) s? := by
  cases s? with
  | none => exact ⟨_, Json.written_null, rfl⟩
  | some s => exact ⟨_, Json.written_text s, rfl⟩

theorem checkout_comesBack (p : Pool.Checkout) :
    ComesBack jsonFormat.checkout (Json.textOf p.name.toList) p := by
  refine ⟨_, Json.written_text p.name, ?_⟩
  cases p <;> rfl

/-- A natural number within its bound comes back. -/
theorem natural_comesBack {bound n : Nat} (expected : String) (hword : bound ≤ Nat.pow 2 64)
    (h : n < bound) :
    ComesBack (fun v => (jsonFormat.shape v).natural bound expected) (Numeral.decimal n) n := by
  refine ⟨_, Json.written_decimal (Nat.lt_of_lt_of_le h hword), ?_⟩
  show Shape.natural bound expected (.integer n) = .ok n
  rw [Shape.natural, if_pos ⟨Int.natCast_nonneg n, Int.ofNat_lt.mpr h⟩, Int.toNat_natCast]

theorem ComesBack.map {γ : Type} {read : Value → Reading β} {cs : List Char} {b : β}
    (h : ComesBack read cs b) (f : β → γ) : ComesBack (fun v => (read v).map f) cs (f b) := by
  obtain ⟨v, hwritten, hread⟩ := h
  refine ⟨v, hwritten, ?_⟩
  show (read v).map f = .ok (f b)
  rw [hread]
  rfl

theorem word32_comesBack (n : UInt32) :
    ComesBack (fun v => (jsonFormat.shape v).word32) (Numeral.decimal n.toNat) n := by
  have h := (natural_comesBack "u32" (by decide) n.toNat_lt).map Nat.toUInt32
  have hn : n.toNat.toUInt32 = n := UInt32.ofNat_toNat
  rwa [hn] at h

theorem word64_comesBack (n : UInt64) :
    ComesBack (fun v => (jsonFormat.shape v).word64) (Numeral.decimal n.toNat) n := by
  have h := (natural_comesBack "usize" (Nat.le_refl _) n.toNat_lt).map Nat.toUInt64
  have hn : n.toNat.toUInt64 = n := UInt64.ofNat_toNat
  rwa [hn] at h

/-! ## Structures -/

/-- A field is found under its name if no other field has it. -/
theorem find?_name {known : List (Field Value σ)} (hnodup : (known.map (·.name)).Nodup)
    {field : Field Value σ} (h : field ∈ known) :
    known.find? (·.name == field.name) = some field := by
  induction known with
  | nil => cases h
  | cons first known ih =>
    rw [List.map_cons, List.nodup_cons] at hnodup
    rcases List.mem_cons.mp h with rfl | h
    · exact List.find?_cons_of_pos (beq_self_eq_true _)
    · have hne : first.name ≠ field.name := by
        intro heq
        exact hnodup.1 (heq ▸ List.mem_map_of_mem h)
      rw [List.find?_cons_of_neg (by simpa using hne), ih hnodup.2 h]

/-- Written texts put values into fields, one after the other. -/
inductive Puts : List (Field Value σ) → List (String × List Char) → σ → σ → Prop where
  | nil {s} : Puts [] [] s s
  | cons {field fields cs texts v s s' s''} :
      Written cs v → field.put v s = .ok s' → Puts fields texts s' s'' →
      Puts (field :: fields) ((field.name, cs) :: texts) s s''

namespace Puts

variable {fields : List (Field Value σ)} {texts : List (String × List Char)} {s s' : σ}

/-- A text that comes back is put into its field. -/
theorem of {read : Value → Reading β} {set : β → σ → σ} {name : String} {cs : List Char} {b : β}
    (h : ComesBack read cs b) (hrest : Puts fields texts (set b s) s') :
    Puts (.of name read set :: fields) ((name, cs) :: texts) s s' := by
  obtain ⟨v, hwritten, hread⟩ := h
  have hput : (Field.of name read set).put v s = .ok (set b s) := by
    show (read v).map (set · s) = .ok (set b s)
    rw [hread]
    rfl
  exact .cons hwritten hput hrest

/-- The written texts are read as the members of an object, and the entries of the object put the
same values into the fields, which are known under their names and have not been given. -/
theorem exists_members (h : Puts fields texts s s') :
    ∃ members, List.Forall₂ WrittenMember texts members ∧
      ∀ (known : List (Field Value σ)) (seen : List String),
        (∀ field ∈ fields, known.find? (·.name == field.name) = some field ∧ field.name ∉ seen) →
        (fields.map (·.name)).Nodup → jsonFormat.entries known seen s members = .ok s' := by
  induction h with
  | nil => exact ⟨[], .nil, fun _ _ _ _ => rfl⟩
  | @cons field fields cs texts v s s' s'' hwritten hput _ ih =>
    obtain ⟨members, hmembers, hentries⟩ := ih
    refine ⟨(some field.name, v) :: members, .cons ⟨rfl, hwritten⟩ hmembers, ?_⟩
    intro known seen hfields hnodup
    obtain ⟨hfind, hseen⟩ := hfields field List.mem_cons_self
    rw [List.map_cons, List.nodup_cons] at hnodup
    have hrest : jsonFormat.entries known (field.name :: seen) s' members = .ok s'' := by
      refine hentries known (field.name :: seen) (fun f hf => ?_) hnodup.2
      obtain ⟨hfind', hseen'⟩ := hfields f (List.mem_cons_of_mem _ hf)
      refine ⟨hfind', fun hmem => ?_⟩
      rcases List.mem_cons.mp hmem with heq | hmem
      · exact hnodup.1 (heq ▸ List.mem_map_of_mem hf)
      · exact hseen' hmem
    have hnot : seen.contains field.name = false := by simpa using hseen
    simp only [Format.entries, hfind, hnot, Bool.false_eq_true, if_false, hput]
    exact hrest

/-- An object of written texts, one for each field of a structure, comes back. -/
theorem comesBack {defaults : σ} (h : Puts fields texts defaults s) (name : String)
    (hnodup : (fields.map (·.name)).Nodup) (hne : texts ≠ []) :
    ComesBack (jsonFormat.fields name fields defaults) (Json.objectOf texts) s := by
  obtain ⟨members, hmembers, hentries⟩ := h.exists_members
  have hread := hentries fields [] (fun f hf => ⟨find?_name hnodup hf, List.not_mem_nil⟩) hnodup
  refine ⟨_, Json.written_object hmembers hne, ?_⟩
  show jsonFormat.entries fields [] defaults members >>= _ = .ok s
  rw [hread]
  rfl

end Puts

/-! ## Settings -/

theorem lock_comesBack (c : Lock.Config) : ComesBack jsonFormat.lock c.toJson c :=
  Puts.comesBack (.of (duration_comesBack _) (.of (word32_comesBack _) (.of (duration_comesBack _)
    .nil))) _ (by decide) (by simp)

theorem pool_comesBack (c : Pool.Config) : ComesBack jsonFormat.pool c.toJson c :=
  Puts.comesBack (.of (word64_comesBack _) (.of (word64_comesBack _) (.of (duration_comesBack _)
    (.of (checkout_comesBack _) .nil)))) _ (by decide) (by simp)

theorem redis_comesBack (c : Redis.Settings) : ComesBack jsonFormat.redis c.toJson c :=
  Puts.comesBack (.of (string_comesBack _) (.of (optionalString_comesBack _)
    (.of (duration_comesBack _) .nil))) _ (by decide) (by simp)

theorem settings_comesBack (s : Settings) : ComesBack jsonFormat.settings s.toJson s :=
  Puts.comesBack (.of (lock_comesBack _) (.of (pool_comesBack _) (.of (redis_comesBack _)
    .nil))) _ (by decide) (by simp)

/-- Settings that were written in JSON are read as the same settings: as a whole, each section
alone, and every duration alone. -/
theorem reads_what_was_written :
    (∀ s : Settings, ofJson jsonFormat.settings s.toJson = .ok s) ∧
    (∀ c : Lock.Config, ofJson jsonFormat.lock c.toJson = .ok c) ∧
    (∀ c : Pool.Config, ofJson jsonFormat.pool c.toJson = .ok c) ∧
    (∀ c : Redis.Settings, ofJson jsonFormat.redis c.toJson = .ok c) ∧
    ∀ d : Duration, Duration.ofSpelled? d.spelled = some d :=
  ⟨fun s => (settings_comesBack s).ofJson_eq, fun c => (lock_comesBack c).ofJson_eq,
    fun c => (pool_comesBack c).ofJson_eq, fun c => (redis_comesBack c).ofJson_eq,
    Duration.ofSpelled?_spelled⟩

end Leasehold.Settings
