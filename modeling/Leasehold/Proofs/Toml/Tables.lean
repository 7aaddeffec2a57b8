import Leasehold.Toml.Document
import Mathlib.Data.List.Nodup

/-!
# The tables of a document

A document is refused if a key is given twice, however the tables came about.  So no table
that is read has a key twice, neither the document itself nor a table anywhere in it
(`distinct_of_document?`), and what stands under a key does not depend on where in its
table it stands.

Items are `Alike` if they differ in nothing but the order of keys and in how tables came
about.
-/

namespace Leasehold.Toml

variable {item : Item} {es es' : Entries} {key : String} {cs rest : List Char}

/-! ## Tables with distinct keys -/

/-- No table in an item has a key twice. -/
inductive Item.Distinct : Item → Prop where
  | string {s} : Distinct (.string s)
  | integer {n} : Distinct (.integer n)
  | float {x} : Distinct (.float x)
  | boolean {b} : Distinct (.boolean b)
  | date : Distinct .date
  | array {items} : (∀ item ∈ items, Distinct item) → Distinct (.array items)
  | table {origin es} :
      (es.map Prod.fst).Nodup → (∀ e ∈ es, Distinct e.2) → Distinct (.table origin es)
  | tables {elements} :
      (∀ es ∈ elements, (es.map Prod.fst).Nodup) → (∀ es ∈ elements, ∀ e ∈ es, Distinct e.2) →
      Distinct (.tables elements)

/-- No table in a table, nor the table itself, has a key twice. -/
structure Entries.Distinct (es : Entries) : Prop where
  nodup : (es.map Prod.fst).Nodup
  items : ∀ e ∈ es, e.2.Distinct

theorem Entries.Distinct.table {origin : Origin} (h : es.Distinct) :
    Item.Distinct (.table origin es) := .table h.nodup h.items

theorem Item.Distinct.entries {origin : Origin} (h : Item.Distinct (.table origin es)) :
    es.Distinct := by
  cases h with
  | table hnodup hitems => exact ⟨hnodup, hitems⟩

theorem Item.distinct_tables_iff {elements : List Entries} :
    Item.Distinct (.tables elements) ↔ ∀ es ∈ elements, es.Distinct := by
  constructor
  · intro h es hes
    cases h with
    | tables hnodup hitems => exact ⟨hnodup es hes, hitems es hes⟩
  · intro h
    exact .tables (fun es hes => (h es hes).nodup) fun es hes => (h es hes).items

namespace Entries

theorem distinct_nil : Distinct [] := ⟨List.nodup_nil, nofun⟩

theorem nodup_concat {keys : List String} (h : keys.Nodup) (hkey : key ∉ keys) :
    (keys ++ [key]).Nodup := by
  rw [← List.concat_eq_append]
  exact h.concat hkey

/-- An item under a new key. -/
theorem Distinct.concat (h : es.Distinct) (hkey : key ∉ es.map Prod.fst) (hitem : item.Distinct) :
    Distinct (es ++ [(key, item)]) where
  nodup := by
    rw [List.map_append]
    exact nodup_concat h.nodup hkey
  items e he := by
    rcases List.mem_append.mp he with he | he
    · exact h.items e he
    · rw [List.mem_singleton.mp he]
      exact hitem

theorem Distinct.filter (h : es.Distinct) (p : String × Item → Bool) :
    Distinct (es.filter p) where
  nodup := h.nodup.sublist (List.filter_sublist.map Prod.fst)
  items e he := h.items e (List.mem_filter.mp he).1

theorem Distinct.insertNew? (h : es.Distinct) (hitem : item.Distinct)
    (hput : es.insertNew? key item = some es') : es'.Distinct := by
  rw [Entries.insertNew?] at hput
  split at hput
  next => cases hput
  next hnew =>
    cases hput
    refine h.concat (fun hmem => hnew ?_) hitem
    obtain ⟨e, he, rfl⟩ := List.mem_map.mp hmem
    exact List.any_eq_true.mpr ⟨e, he, beq_self_eq_true _⟩

/-! ## Changing a table -/

/-- A change leaves distinct keys distinct. -/
def Keeps (change : Origin → Entries → Option Entries) : Prop :=
  ∀ origin es es', es.Distinct → change origin es = some es' → es'.Distinct

/-- A change of an item leaves distinct keys distinct. -/
def KeepsItem (change : Option Item → Option Item) : Prop :=
  ∀ old? new, (∀ old, old? = some old → old.Distinct) → change old? = some new → new.Distinct

/-- Changing an item keeps the keys, or adds one. -/
theorem keys_alter? {change : Option Item → Option Item} (h : alter? key change es = some es') :
    es'.map Prod.fst = es.map Prod.fst ∨
      key ∉ es.map Prod.fst ∧ es'.map Prod.fst = es.map Prod.fst ++ [key] := by
  induction es generalizing es' with
  | nil =>
    obtain ⟨item, -, rfl⟩ := Option.map_eq_some_iff.mp h
    exact .inr ⟨List.not_mem_nil, rfl⟩
  | cons e rest ih =>
    obtain ⟨k, old⟩ := e
    rw [alter?] at h
    split at h
    next =>
      obtain ⟨item, -, rfl⟩ := Option.map_eq_some_iff.mp h
      exact .inl rfl
    next hne =>
      obtain ⟨rest', hrest, rfl⟩ := Option.map_eq_some_iff.mp h
      rcases ih hrest with hsame | ⟨hnew, hadded⟩
      · exact .inl (congrArg (k :: ·) hsame)
      · refine .inr ⟨?_, congrArg (k :: ·) hadded⟩
        rw [List.map_cons, List.mem_cons, not_or]
        exact ⟨fun heq => hne heq.symm, hnew⟩

theorem items_alter? {change : Option Item → Option Item} (hchange : KeepsItem change)
    (hitems : ∀ e ∈ es, e.2.Distinct) (h : alter? key change es = some es') :
    ∀ e ∈ es', e.2.Distinct := by
  induction es generalizing es' with
  | nil =>
    obtain ⟨item, hitem, rfl⟩ := Option.map_eq_some_iff.mp h
    intro e he
    rw [List.mem_singleton.mp he]
    exact hchange none item nofun hitem
  | cons e rest ih =>
    obtain ⟨k, old⟩ := e
    have hold : old.Distinct := hitems (k, old) List.mem_cons_self
    have hrest : ∀ e ∈ rest, e.2.Distinct := fun e he => hitems e (List.mem_cons_of_mem _ he)
    rw [alter?] at h
    split at h
    next =>
      obtain ⟨item, hitem, rfl⟩ := Option.map_eq_some_iff.mp h
      have hnew : item.Distinct := hchange (some old) item (by rintro _ ⟨⟩; exact hold) hitem
      exact List.forall_mem_cons.mpr ⟨hnew, hrest⟩
    next =>
      obtain ⟨rest', hrest', rfl⟩ := Option.map_eq_some_iff.mp h
      exact List.forall_mem_cons.mpr ⟨hold, ih hrest hrest'⟩

theorem Distinct.alter? {change : Option Item → Option Item} (h : es.Distinct)
    (hchange : KeepsItem change) (halter : Entries.alter? key change es = some es') :
    es'.Distinct where
  nodup := by
    rcases keys_alter? halter with hsame | ⟨hnew, hadded⟩
    · rw [hsame]
      exact h.nodup
    · rw [hadded]
      exact nodup_concat h.nodup hnew
  items := items_alter? hchange h.items halter

/-- Changing the table at the end of a path. -/
theorem Keeps.within? {change : Origin → Entries → Option Entries} (h : Keeps change)
    (byKey : Bool) (path : List String) : Keeps (Entries.within? byKey change path) := by
  induction path with
  | nil => exact h
  | cons key path ih =>
    intro origin es es' hes hwithin
    rw [Entries.within?] at hwithin
    refine hes.alter? (fun old? new hold hnew => ?_) hwithin
    -- The item under the first key is new, a table, a list of tables, or in the way.
    dsimp only at hnew
    split at hnew
    next =>
      obtain ⟨inner, hinner, rfl⟩ := Option.map_eq_some_iff.mp hnew
      exact (ih _ _ _ distinct_nil hinner).table
    next origin inner =>
      split at hnew
      next => cases hnew
      next =>
        obtain ⟨inner', hinner, rfl⟩ := Option.map_eq_some_iff.mp hnew
        exact (ih _ _ _ (hold _ rfl).entries hinner).table
    next elements =>
      split at hnew
      next => cases hnew
      next last hlast =>
        obtain ⟨last', hlast', rfl⟩ := Option.map_eq_some_iff.mp hnew
        have hall := Item.distinct_tables_iff.mp (hold _ rfl)
        have hmem := List.mem_of_getLast? hlast
        refine Item.distinct_tables_iff.mpr fun es hes => ?_
        rcases List.mem_append.mp hes with hes | hes
        · exact hall es (List.dropLast_subset _ hes)
        · rw [List.mem_singleton.mp hes]
          exact ih _ _ _ (hall last hmem) hlast'
    next => cases hnew

theorem Distinct.put? {path : List String} (h : es.Distinct) (hitem : item.Distinct)
    (hput : es.put? path key item = some es') : es'.Distinct := by
  refine Keeps.within? (fun origin es es' hes hchange => ?_) true path _ _ _ h hput
  split at hchange
  next => cases hchange
  next => exact hes.insertNew? hitem hchange

theorem Distinct.beginTable? {path : List String} (h : es.Distinct)
    (hbegin : es.beginTable? path key = some es') : es'.Distinct := by
  refine Keeps.within? (fun origin es es' hes hchange => ?_) false path _ _ _ h hbegin
  split at hchange
  next hfind =>
    cases hchange
    refine hes.concat (fun hmem => ?_) distinct_nil.table
    obtain ⟨e, he, rfl⟩ := List.mem_map.mp hmem
    exact List.find?_eq_none.mp hfind e he (beq_self_eq_true _)
  next k inner hfind =>
    cases hchange
    have hinner : Entries.Distinct inner :=
      (hes.items _ (List.mem_of_find?_eq_some hfind)).entries
    refine (hes.filter _).concat (fun hmem => ?_) hinner.table
    obtain ⟨e, he, rfl⟩ := List.mem_map.mp hmem
    exact (bne_iff_ne.mp (List.mem_filter.mp he).2) rfl
  next => cases hchange

theorem Distinct.beginElement? {path : List String} (h : es.Distinct)
    (hbegin : es.beginElement? path key = some es') : es'.Distinct := by
  refine Keeps.within? (fun origin es es' hes hchange => ?_) false path _ _ _ h hbegin
  refine hes.alter? (fun old? new hold hnew => ?_) hchange
  split at hnew
  next =>
    cases hnew
    refine Item.distinct_tables_iff.mpr fun es hes => ?_
    rw [List.mem_singleton.mp hes]
    exact distinct_nil
  next elements =>
    cases hnew
    have hall := Item.distinct_tables_iff.mp (hold _ rfl)
    refine Item.distinct_tables_iff.mpr fun es hes => ?_
    rcases List.mem_append.mp hes with hes | hes
    · exact hall es hes
    · rw [List.mem_singleton.mp hes]
      exact distinct_nil
  next => cases hnew

end Entries

/-! ## Reading values -/

/-- What a reader reads has no table with a key twice. -/
def Yields (item? : Reader Item) : Prop :=
  ∀ {cs item rest}, item? cs = some (item, rest) → item.Distinct

theorem distinct_of_integer? {negative : Bool} {n : Nat} (h : integer? negative n = some item) :
    item.Distinct := by
  rw [integer?] at h
  split at h <;> split at h
  all_goals
    cases h
    try exact .integer

theorem distinct_of_based? {base : Nat} (h : based? base cs = some (item, rest)) :
    item.Distinct := by
  simp only [based?, Option.bind_eq_bind, Option.bind_eq_some_iff] at h
  obtain ⟨_, -, n, -, item', hitem, heq⟩ := h
  cases heq
  exact distinct_of_integer? hitem

theorem distinct_of_decimal? {negative : Bool} (h : decimal? negative cs = some (item, rest)) :
    item.Distinct := by
  simp only [decimal?, Option.bind_eq_bind, Option.bind_eq_some_iff] at h
  obtain ⟨_, -, _, -, _, -, h⟩ := h
  split at h
  next =>
    obtain ⟨item', hitem, heq⟩ := Option.bind_eq_some_iff.mp h
    cases heq
    exact distinct_of_integer? hitem
  next =>
    split at h
    next => cases h
    next =>
      cases h
      exact .float

theorem distinct_of_number? (h : number? cs = some (item, rest)) : item.Distinct := by
  rw [number?] at h
  split at h
  next => cases h; exact .float
  next => cases h; exact .float
  next => exact distinct_of_based? h
  next => exact distinct_of_based? h
  next => exact distinct_of_based? h
  next => exact distinct_of_decimal? h

theorem yields_scalar? : Yields scalar? := by
  intro cs item rest h
  rw [scalar?.eq_def] at h
  split at h
  iterate 2
    next =>
      obtain ⟨_, -, heq⟩ := Option.map_eq_some_iff.mp h
      cases heq
      exact .string
  iterate 2
    next =>
      cases h
      exact .boolean
  next =>
    split at h
    next =>
      obtain ⟨_, -, heq⟩ := Option.map_eq_some_iff.mp h
      cases heq
      exact .date
    next =>
      split at h
      next =>
        obtain ⟨_, -, heq⟩ := Option.map_eq_some_iff.mp h
        cases heq
        exact .date
      next => exact distinct_of_number? h

theorem items_distinct {item? : Reader Item} (hitem : Yields item?) {fuel : Nat}
    {items : List Item} (h : items? item? fuel cs = some (items, rest)) :
    ∀ item ∈ items, item.Distinct := by
  induction fuel generalizing cs items rest with
  | zero => cases h
  | succ fuel ih =>
    rw [items?] at h
    split at h
    next =>
      cases h
      exact nofun
    next =>
      obtain ⟨⟨first, cs'⟩, hfirst, h⟩ := Option.bind_eq_some_iff.mp h
      have hdistinct : first.Distinct := hitem hfirst
      dsimp only at h
      split at h
      next =>
        obtain ⟨⟨others, rest'⟩, hothers, heq⟩ := Option.bind_eq_some_iff.mp h
        cases heq
        exact List.forall_mem_cons.mpr ⟨hdistinct, ih hothers⟩
      next =>
        cases h
        exact List.forall_mem_singleton.mpr hdistinct
      next => cases h

theorem pairs_distinct {item? : Reader Item} (hitem : Yields item?) {fuel : Nat}
    (hes : es.Distinct) (h : pairs? item? fuel es cs = some (es', rest)) : es'.Distinct := by
  induction fuel generalizing cs es with
  | zero => cases h
  | succ fuel ih =>
    simp only [pairs?, Option.bind_eq_bind, Option.bind_eq_some_iff] at h
    obtain ⟨⟨⟨path, key⟩, cs₁⟩, -, cs₂, -, ⟨first, cs₃⟩, hfirst, es₁, hput, h⟩ := h
    have hdistinct : es₁.Distinct := hes.put? (hitem hfirst) hput
    split at h
    next => exact ih hdistinct h
    next =>
      cases h
      exact hdistinct
    next => cases h

theorem yields_value? (depth : Nat) : Yields (value? depth) := by
  induction depth with
  | zero => exact yields_scalar?
  | succ depth ih =>
    intro cs item rest h
    rw [value?.eq_def] at h
    dsimp only at h
    split at h
    next =>
      obtain ⟨⟨items, rest'⟩, hitems, heq⟩ := Option.map_eq_some_iff.mp h
      cases heq
      exact .array (items_distinct ih hitems)
    next =>
      split at h
      next =>
        cases h
        exact Entries.distinct_nil.table
      next =>
        obtain ⟨⟨es, rest'⟩, hpairs, heq⟩ := Option.map_eq_some_iff.mp h
        cases heq
        exact (pairs_distinct ih Entries.distinct_nil hpairs).table
    next => exact yields_scalar? h

/-! ## Reading documents -/

section

variable {s s' : State} (hroot : s.root.Distinct)

include hroot

theorem root_distinct_of_pair? (h : pair? s cs = some (s', rest)) : s'.root.Distinct := by
  simp only [pair?, Option.bind_eq_bind, Option.bind_eq_some_iff] at h
  obtain ⟨⟨⟨path, key⟩, cs₁⟩, -, cs₂, -, ⟨item, cs₃⟩, hitem, cs₄, -, s₁, hput, heq⟩ := h
  cases heq
  obtain ⟨root, hwithin, rfl⟩ := Option.map_eq_some_iff.mp hput
  have hdistinct : item.Distinct := yields_value? _ hitem
  refine Entries.Keeps.within? (fun _ es es' hes h => ?_) false s.path _ _ _ hroot hwithin
  exact hes.put? hdistinct h

theorem root_distinct_of_begin? {element : Bool} {path : List String} {key : String}
    (h : s.begin? element path key = some s') : s'.root.Distinct := by
  obtain ⟨root, hbegin, rfl⟩ := Option.map_eq_some_iff.mp h
  split at hbegin
  next => exact hroot.beginElement? hbegin
  next => exact hroot.beginTable? hbegin

theorem root_distinct_of_header? {element : Bool} (h : header? s element cs = some (s', rest)) :
    s'.root.Distinct := by
  cases element with
  | true =>
    simp only [header?, if_true, Option.bind_eq_bind, Option.bind_eq_some_iff] at h
    obtain ⟨⟨⟨path, key⟩, cs₁⟩, -, cs₂, -, cs₃, -, cs₄, -, s₁, hbegin, heq⟩ := h
    cases heq
    exact root_distinct_of_begin? hroot hbegin
  | false =>
    simp only [header?, Bool.false_eq_true, if_false, Option.bind_eq_bind,
      Option.bind_eq_some_iff] at h
    obtain ⟨⟨⟨path, key⟩, cs₁⟩, -, cs₂, -, cs₃, -, cs₄, -, s₁, hbegin, heq⟩ := h
    cases heq
    exact root_distinct_of_begin? hroot hbegin

theorem root_distinct_of_lines? {fuel : Nat} (h : lines? fuel s cs = some s') :
    s'.root.Distinct := by
  induction fuel generalizing s cs with
  | zero => cases h
  | succ fuel ih =>
    rw [lines?] at h
    split at h
    next =>
      cases h
      exact hroot
    iterate 3
      next =>
        obtain ⟨cs', -, h⟩ := Option.bind_eq_some_iff.mp h
        exact ih hroot h
    iterate 2
      next =>
        obtain ⟨⟨s₁, cs'⟩, hheader, h⟩ := Option.bind_eq_some_iff.mp h
        exact ih (root_distinct_of_header? hroot hheader) h
    next =>
      obtain ⟨⟨s₁, cs'⟩, hpair, h⟩ := Option.bind_eq_some_iff.mp h
      exact ih (root_distinct_of_pair? hroot hpair) h

end

/-- No table of a document has a key twice. -/
theorem distinct_of_document? (h : document? cs = some es) : es.Distinct := by
  obtain ⟨s, hlines, rfl⟩ := Option.map_eq_some_iff.mp h
  exact root_distinct_of_lines? Entries.distinct_nil hlines

/-! ## What stands under a key -/

/-- The items in a row, if that is what an item is. -/
def Item.row? : Item → Option (List Item)
  | .array items => some items
  | .tables elements => some (elements.map (.table .header))
  | _ => none

/-- Two items differ at most in the order of keys and in how tables came about. -/
inductive Item.Alike : Item → Item → Prop where
  | refl {x} : Alike x x
  | table {origin origin' es es'} :
      (∀ key, es.lookup key = none ↔ es'.lookup key = none) →
      (∀ key x y, es.lookup key = some x → es'.lookup key = some y → Alike x y) →
      Alike (.table origin es) (.table origin' es')
  | row {x y items items'} :
      x.row? = some items → y.row? = some items' → items.length = items'.length →
      (∀ (i : Nat) x y, items[i]? = some x → items'[i]? = some y → Alike x y) →
      Alike x y

theorem Item.Alike.symm {x y : Item} (h : x.Alike y) : y.Alike x := by
  induction h with
  | refl => exact .refl
  | table hnone _ ih =>
    refine .table (fun key => (hnone key).symm) fun key x y hx hy => ?_
    exact ih key y x hy hx
  | row hx hy hlength _ ih =>
    refine .row hy hx hlength.symm fun i x y hx hy => ?_
    exact ih i y x hy hx

/-- Tables with the same entries are alike, however they came about. -/
theorem Item.Alike.of_entries {origin origin' : Origin} :
    Alike (.table origin es) (.table origin' es) := by
  refine .table (fun _ => Iff.rfl) fun key x y hx hy => ?_
  rw [hx] at hy
  cases hy
  exact .refl

theorem lookup_eq_none_iff : es.lookup key = none ↔ key ∉ es.map Prod.fst := by
  rw [List.lookup_eq_none_iff]
  constructor
  · intro h hmem
    obtain ⟨e, he, rfl⟩ := List.mem_map.mp hmem
    exact absurd (h e he) (by simp)
  · intro h e he
    refine bne_iff_ne.mpr ?_
    rintro rfl
    exact h (List.mem_map_of_mem he)

theorem mem_of_lookup (h : es.lookup key = some item) : (key, item) ∈ es := by
  obtain ⟨before, after, rfl, -⟩ := List.lookup_eq_some_iff.mp h
  exact List.mem_append_right _ List.mem_cons_self

/-- A table without keys is empty. -/
theorem eq_nil_of_lookup (h : ∀ key, es.lookup key = none) : es = [] := by
  cases es with
  | nil => rfl
  | cons e rest => exact absurd List.mem_cons_self (lookup_eq_none_iff.mp (h e.1))

/-- A table with one key has one entry. -/
theorem Entries.Distinct.eq_singleton (h : es.Distinct) (hkey : es.lookup key = some item)
    (hothers : ∀ key', key' ≠ key → es.lookup key' = none) : es = [(key, item)] := by
  cases es with
  | nil => cases hkey
  | cons e rest =>
    obtain ⟨k, first⟩ := e
    have hk : k = key := by
      by_contra hne
      exact lookup_eq_none_iff.mp (hothers k hne) List.mem_cons_self
    subst hk
    have hfirst : first = item := by simpa using hkey
    have hrest : rest = [] := by
      refine eq_nil_of_lookup fun key' => lookup_eq_none_iff.mpr fun hmem => ?_
      have hne : key' ≠ k := by
        rintro rfl
        exact (List.nodup_cons.mp h.nodup).1 hmem
      exact lookup_eq_none_iff.mp (hothers key' hne) (List.mem_cons_of_mem _ hmem)
    rw [hfirst, hrest]

end Leasehold.Toml
