import Leasehold.Net.Path
import Leasehold.Proofs.Net.Percent

/-!
# Paths are read as they were written

A path that was read is `Resolved`: none of its segments stands for a place, and all are
encoded (`resolved_ofText`).  Resolving such segments again leaves them as they are, so
the text of the path is read as the path (`ofText_text`).
-/

namespace Leasehold.Path

open Percent

/-- A segment that stands for no other place and is encoded. -/
structure Plain (segment : List Char) : Prop where
  dot : isDot segment = false
  doubleDot : isDoubleDot segment = false
  encoded : ∀ c ∈ segment, inPath c = false
  slash : '/' ∉ segment

/-- A path whose segments are plain. -/
def Resolved (p : Path) : Prop := ∀ segment ∈ p, Plain segment

theorem plain_nil : Plain [] := ⟨rfl, by decide, by simp, by simp⟩

/-! ## Resolving -/

theorem mem_of_mem_up {segment : List Char} {done : List (List Char)} (h : segment ∈ up done) :
    segment ∈ done := by
  cases done with
  | nil => exact h
  | cons first rest =>
    rw [up] at h
    split at h
    · exact h
    · exact List.mem_cons_of_mem _ h

/-- What comes of resolving is plain. -/
theorem resolved_resolveAfter {done segments : List (List Char)}
    (hdone : ∀ segment ∈ done, Plain segment)
    (hchars : ∀ segment ∈ segments, (∀ c ∈ segment, inPath c = false) ∧ '/' ∉ segment) :
    Resolved (resolveAfter done segments) := by
  induction segments generalizing done with
  | nil =>
    intro segment hmem
    exact hdone segment (List.mem_reverse.mp hmem)
  | cons first rest ih =>
    obtain ⟨⟨hencoded, hslash⟩, hrest⟩ := List.forall_mem_cons.mp hchars
    have hlast : ∀ segment ∈ (if rest = [] then [[]] else [] : List (List Char)),
        Plain segment := by
      intro segment hmem
      split at hmem
      · cases List.mem_singleton.mp hmem
        exact plain_nil
      · cases hmem
    rw [resolveAfter]
    split
    · refine ih (fun segment hmem => ?_) hrest
      obtain hmem | hmem := List.mem_append.mp hmem
      · exact hlast segment hmem
      · exact hdone segment (mem_of_mem_up hmem)
    split
    · refine ih (fun segment hmem => ?_) hrest
      obtain hmem | hmem := List.mem_append.mp hmem
      · exact hlast segment hmem
      · exact hdone segment hmem
    next hdouble hdot =>
      refine ih (List.forall_mem_cons.mpr ⟨?_, hdone⟩) hrest
      exact ⟨Bool.eq_false_iff.mpr hdot, Bool.eq_false_iff.mpr hdouble, hencoded, hslash⟩

theorem resolveAfter_of_plain {segments : List (List Char)} (h : Resolved segments)
    (done : List (List Char)) : resolveAfter done segments = done.reverse ++ segments := by
  induction segments generalizing done with
  | nil => simp [resolveAfter]
  | cons first rest ih =>
    obtain ⟨hfirst, hrest⟩ := List.forall_mem_cons.mp h
    rw [resolveAfter, hfirst.doubleDot, hfirst.dot]
    simp [ih hrest]

/-! ## Reading and writing -/

theorem not_mem_of_mem_splitOn {x : Char} {cs part : List Char} (h : part ∈ cs.splitOn x) :
    x ∉ part := by
  induction cs generalizing part with
  | nil =>
    cases List.mem_singleton.mp h
    simp
  | cons c cs ih =>
    rw [List.splitOn_cons_eq_if_modifyHead] at h
    split at h
    · obtain rfl | h := List.mem_cons.mp h
      · simp
      · exact ih h
    next hne =>
      cases hsplit : cs.splitOn x with
      | nil => exact absurd hsplit (List.splitOn_ne_nil x cs)
      | cons first rest =>
        rw [hsplit, List.modifyHead_cons] at h
        obtain rfl | h := List.mem_cons.mp h
        · have hfirst := ih (hsplit ▸ List.mem_cons_self)
          simp only [List.mem_cons, not_or]
          exact ⟨fun heq => hne (by simp [heq]), hfirst⟩
        · exact ih (hsplit ▸ List.mem_cons_of_mem _ h)

/-- What is read is resolved. -/
theorem resolved_ofText (cs : List Char) : Resolved (ofText cs) := by
  refine resolved_resolveAfter (by simp) fun segment hmem => ?_
  obtain ⟨part, hpart, rfl⟩ := List.mem_map.mp hmem
  refine ⟨fun _ => spares_inPath.mem_encode, ?_⟩
  exact not_mem_encode (not_mem_of_mem_splitOn (List.mem_of_mem_tail hpart)) (by decide) (by decide)

theorem intercalate_cons (first : List Char) (p : Path) :
    ['/'].intercalate (first :: p) = first ++ text p := by
  induction p generalizing first with
  | nil => simp [text]
  | cons segment p ih =>
    rw [List.intercalate_cons_cons, ih, List.append_assoc]
    rfl

/-- The text of a path is read as the path. -/
theorem ofText_text {p : Path} (h : Resolved p) : ofText (text p) = p := by
  have hsplit : (text p).splitOn '/' = [] :: p := by
    rw [← List.nil_append (text p), ← intercalate_cons]
    refine List.splitOn_intercalate '/' (List.forall_mem_cons.mpr ⟨by simp, ?_⟩) (by simp)
    exact fun segment hmem => (h segment hmem).slash
  have hencode : p.map (encode inPath) = p := by
    conv => rhs; rw [← List.map_id p]
    exact List.map_congr_left fun segment hmem => encode_eq_self (h segment hmem).encoded
  rw [ofText, hsplit, List.tail_cons, hencode, resolveAfter_of_plain h]
  rfl

/-- The characters of the text of a path are slashes and those of its segments. -/
theorem mem_text {p : Path} (h : Resolved p) {c : Char} (hc : c ∈ text p) : inPath c = false := by
  obtain ⟨segment, hmem, hc⟩ := List.mem_flatMap.mp hc
  obtain rfl | hc := List.mem_cons.mp hc
  · rfl
  · exact (h segment hmem).encoded c hc

end Leasehold.Path
