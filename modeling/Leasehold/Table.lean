/-!
# Tables keyed by text

A finite map from texts to values, as a list of rows with different keys.  A row that is written
goes to the front.  Every operation is described through `Table.find?`, and two tables that are
built by the same operations are equal.
-/

namespace Leasehold

/-- A finite map from texts to values. -/
structure Table (α : Type) where
  /-- The rows: a key and its value. -/
  rows : List (String × α) := []
  /-- No key has two rows. -/
  keys_nodup : (rows.map Prod.fst).Nodup := by simp
deriving Repr

namespace Table

variable {α : Type}

@[ext] theorem ext {s t : Table α} (h : s.rows = t.rows) : s = t := by
  cases s; cases t; cases h; rfl

instance [DecidableEq α] : DecidableEq (Table α) := fun s t =>
  if h : s.rows = t.rows then isTrue (ext h) else isFalse fun e => h (e ▸ rfl)

instance : EmptyCollection (Table α) := ⟨{}⟩

instance : Inhabited (Table α) := ⟨∅⟩

/-- The value of a key. -/
def find? (t : Table α) (k : String) : Option α := t.rows.lookup k

/-- Whether a key has a value. -/
def contains (t : Table α) (k : String) : Bool := (t.find? k).isSome

/-- The number of keys. -/
def size (t : Table α) : Nat := t.rows.length

/-- The rows whose value passes a test. -/
def filter (p : α → Bool) (t : Table α) : Table α where
  rows := t.rows.filter fun r => p r.2
  keys_nodup := t.keys_nodup.sublist (List.Sublist.map _ (List.filter_sublist))

/-- The table without a key. -/
def erase (t : Table α) (k : String) : Table α where
  rows := t.rows.filter fun r => r.1 != k
  keys_nodup := t.keys_nodup.sublist (List.Sublist.map _ (List.filter_sublist))

/-- The table in which a key has the given value. -/
def insert (t : Table α) (k : String) (v : α) : Table α where
  rows := (k, v) :: (t.erase k).rows
  keys_nodup := by
    rw [List.map_cons, List.nodup_cons]
    refine ⟨?_, (t.erase k).keys_nodup⟩
    simp only [erase, List.mem_map, List.mem_filter, bne_iff_ne, ne_eq, not_exists, not_and]
    intro r hr
    exact hr.2

/-! ## What is found after each operation -/

@[simp] theorem find?_empty (k : String) : (∅ : Table α).find? k = none := rfl

theorem lookup_filter_ne {l : List (String × α)} {j k : String} (h : j ≠ k) :
    (l.filter fun r => r.1 != k).lookup j = l.lookup j := by
  induction l with
  | nil => rfl
  | cons r l ih =>
    obtain ⟨a, v⟩ := r
    by_cases ha : a = k
    · have hj : (j == a) = false := by simpa [ha] using h
      rw [List.filter_cons_of_neg (by simp [ha]), ih, List.lookup_cons, hj]
    · rw [List.filter_cons_of_pos (by simp [ha]), List.lookup_cons, List.lookup_cons, ih]

theorem lookup_filter_self {l : List (String × α)} {k : String} :
    (l.filter fun r => r.1 != k).lookup k = none := by
  induction l with
  | nil => rfl
  | cons r l ih =>
    obtain ⟨a, v⟩ := r
    by_cases ha : a = k
    · rw [List.filter_cons_of_neg (by simp [ha]), ih]
    · have hk : (k == a) = false := by simpa using fun e => ha e.symm
      rw [List.filter_cons_of_pos (by simp [ha]), List.lookup_cons, hk, ih]

@[simp] theorem find?_erase_self (t : Table α) (k : String) : (t.erase k).find? k = none :=
  lookup_filter_self

theorem find?_erase_of_ne (t : Table α) {j k : String} (h : j ≠ k) :
    (t.erase k).find? j = t.find? j :=
  lookup_filter_ne h

@[simp] theorem find?_insert_self (t : Table α) (k : String) (v : α) :
    (t.insert k v).find? k = some v := by
  simp [find?, insert]

theorem find?_insert_of_ne (t : Table α) {j k : String} (v : α) (h : j ≠ k) :
    (t.insert k v).find? j = t.find? j := by
  have hj : (j == k) = false := by simpa using h
  simp only [find?, insert, List.lookup_cons, hj]
  exact find?_erase_of_ne t h

theorem find?_erase (t : Table α) (j k : String) :
    (t.erase k).find? j = if j = k then none else t.find? j := by
  by_cases h : j = k
  · simp [h]
  · simp [h, find?_erase_of_ne t h]

theorem find?_insert (t : Table α) (j k : String) (v : α) :
    (t.insert k v).find? j = if j = k then some v else t.find? j := by
  by_cases h : j = k
  · simp [h]
  · simp [h, find?_insert_of_ne t v h]

theorem contains_insert_of_contains {t : Table α} {j k : String} {v : α}
    (h : t.contains j = true) : (t.insert k v).contains j = true := by
  rw [contains, find?_insert]
  split
  · rfl
  · exact h

/-- Since no key has two rows, a row that is filtered out hides nothing. -/
theorem lookup_filter_value {p : α → Bool} {l : List (String × α)} (h : (l.map Prod.fst).Nodup)
    (k : String) : (l.filter fun r => p r.2).lookup k = (l.lookup k).filter p := by
  induction l with
  | nil => rfl
  | cons r l ih =>
    obtain ⟨a, v⟩ := r
    rw [List.map_cons, List.nodup_cons] at h
    obtain ⟨hnot, hnodup⟩ := h
    by_cases hk : k = a
    · subst hk
      have habsent : l.lookup k = none := by
        rw [List.lookup_eq_none_iff]
        intro r hr
        have hmem : r.1 ∈ l.map Prod.fst := List.mem_map_of_mem hr
        have hne : k ≠ r.1 := fun e => hnot (e ▸ hmem)
        simpa using hne
      cases hp : p v <;> simp [Option.filter_some, hp, ih hnodup, habsent]
    · have hka : (k == a) = false := by simpa using hk
      cases hp : p v <;> simp [hp, List.lookup_cons, hka, ih hnodup]

theorem find?_filter (t : Table α) (p : α → Bool) (k : String) :
    (t.filter p).find? k = (t.find? k).filter p :=
  lookup_filter_value t.keys_nodup k

end Table

end Leasehold
