import Literate.Document.Replacements
import Literate.Proofs.Store.Entry

/-!
# Records

What is on record for a number after recording and erasing. A record is made once, and stays until it is
erased, so the numbers that have a record (`Replacements.targets`) are all different.
-/

namespace Literate.Replacements

variable {r : Replacements} {id x : Nat} {nodes : List Node}

/-- The numbers that have a record. -/
def targets (r : Replacements) : List NodeId :=
  r.entries.map (·.1)

@[simp]
theorem find?_empty : empty.find? x = none := rfl

theorem find?_cons (entries : List (NodeId × List Node)) :
    find? ⟨(id, nodes) :: entries⟩ x = if x = id then some nodes else find? ⟨entries⟩ x := by
  unfold find?
  rw [List.lookup_cons]
  by_cases hx : x = id
  · subst hx
    simp
  · rw [if_neg hx, beq_eq_false_iff_ne.mpr hx]

/-- A number has a record if it is one of the targets. -/
theorem find?_ne_none : r.find? x ≠ none ↔ x ∈ r.targets := by
  obtain ⟨entries⟩ := r
  induction entries with
  | nil => simp [find?, targets]
  | cons entry entries ih =>
    obtain ⟨id, nodes⟩ := entry
    rw [find?_cons]
    by_cases hx : x = id
    · subst hx
      simp [targets]
    · rw [if_neg hx, ih]
      simp [targets, hx]

theorem eq_empty_of_find?_eq_none (h : ∀ x, r.find? x = none) : r = .empty := by
  obtain ⟨entries⟩ := r
  cases entries with
  | nil => rfl
  | cons entry entries =>
    have hsome := h entry.1
    rw [find?_cons, if_pos rfl] at hsome
    cases hsome

-- ---------------------------------------------------------------------------
-- Recording
-- ---------------------------------------------------------------------------

theorem record_of_none (h : r.find? id = none) :
    r.record id nodes = (true, ⟨(id, nodes) :: r.entries⟩) := by
  rw [record, h]

theorem record_of_ne_none (h : r.find? id ≠ none) : r.record id nodes = (false, r) := by
  obtain ⟨_, hold⟩ := Option.ne_none_iff_exists'.mp h
  rw [record, hold]

/-- The first record for a number is the one that counts. -/
theorem find?_record :
    (r.record id nodes).2.find? x = if x = id then (r.find? id).or (some nodes) else r.find? x := by
  by_cases h : r.find? id = none
  · rw [record_of_none h, find?_cons, h]
    rfl
  · rw [record_of_ne_none h]
    obtain ⟨old, hold⟩ := Option.ne_none_iff_exists'.mp h
    by_cases hx : x = id
    · rw [if_pos hx, hx, hold]
      rfl
    · rw [if_neg hx]

theorem nodup_record (h : r.targets.Nodup) : (r.record id nodes).2.targets.Nodup := by
  by_cases hid : r.find? id = none
  · rw [record_of_none hid]
    refine List.nodup_cons.mpr ⟨fun hmem => ?_, h⟩
    exact find?_ne_none.mpr hmem hid
  · rwa [record_of_ne_none hid]

/-- Records that are made one after another. -/
def recordAll (records : List (NodeId × List Node)) : Replacements :=
  records.foldl (fun r entry => (r.record entry.1 entry.2).2) .empty

theorem find?_foldl_record (records : List (NodeId × List Node)) :
    (records.foldl (fun r entry => (r.record entry.1 entry.2).2) r).find? x =
      (r.find? x).or (records.lookup x) := by
  induction records generalizing r with
  | nil => simp
  | cons entry records ih =>
    obtain ⟨y, nodes⟩ := entry
    rw [List.foldl_cons, ih, find?_record, List.lookup_cons]
    by_cases hx : x = y
    · subst hx
      cases r.find? x <;> simp
    · rw [if_neg hx, beq_eq_false_iff_ne.mpr hx]

theorem find?_recordAll (records : List (NodeId × List Node)) :
    (recordAll records).find? x = records.lookup x :=
  find?_foldl_record records

-- ---------------------------------------------------------------------------
-- Erasing
-- ---------------------------------------------------------------------------

/-- The records of the numbers that are kept. -/
def restrict (r : Replacements) (keep : Nat → Bool) : Replacements :=
  ⟨r.entries.filter fun entry => keep entry.1⟩

theorem find?_restrict {keep : Nat → Bool} :
    (r.restrict keep).find? x = if keep x then r.find? x else none := by
  obtain ⟨entries⟩ := r
  unfold restrict
  induction entries with
  | nil => simp [find?]
  | cons entry entries ih =>
    obtain ⟨y, nodes⟩ := entry
    by_cases hy : keep y
    · rw [List.filter_cons_of_pos (by simpa using hy), find?_cons, ih, find?_cons]
      by_cases hx : x = y
      · rw [if_pos hx, if_pos hx, hx, if_pos hy]
      · rw [if_neg hx, if_neg hx]
    · rw [List.filter_cons_of_neg (by simpa using hy), ih, find?_cons]
      by_cases hx : x = y
      · rw [hx, if_neg hy, if_neg hy]
      · rw [if_neg hx]

theorem erase_eq_restrict : r.erase id = r.restrict fun x => decide (x ≠ id) := rfl

theorem find?_erase : (r.erase id).find? x = if x = id then none else r.find? x := by
  rw [erase_eq_restrict, find?_restrict]
  by_cases hx : x = id <;> simp [hx]

theorem targets_erase : (r.erase id).targets = r.targets.filter (· ≠ id) := by
  unfold targets erase
  rw [List.filter_map]
  rfl

theorem nodup_erase (h : r.targets.Nodup) : (r.erase id).targets.Nodup := by
  rw [targets_erase]
  exact h.filter _

/-- Erasing the record of a number takes exactly this number off the targets. -/
theorem targets_perm_erase (h : r.targets.Nodup) (hid : r.find? id ≠ none) :
    r.targets.Perm (id :: (r.erase id).targets) := by
  refine (List.perm_ext_iff_of_nodup h ?_).mpr fun x => ?_
  · refine List.nodup_cons.mpr ⟨?_, nodup_erase h⟩
    rw [targets_erase]
    simp
  · rw [targets_erase]
    by_cases hx : x = id
    · subst hx
      simpa using find?_ne_none.mp hid
    · simp [hx]

end Literate.Replacements
