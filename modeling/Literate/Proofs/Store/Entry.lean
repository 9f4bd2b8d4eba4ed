import Literate.Document.Store

/-!
# The entries of a store

What each operation of a store does to its size, its root and its entries. Everything above this module
speaks of a store through these three.

`Extends` says that a store has grown: new entries stand behind the old ones, which are as they were.
-/

namespace Literate.Store

variable {s s' s'' : Store} {id x : Nat} {n : Node} {f : Entry → Entry}
  {slots : List (Slot NodeId)}

-- ---------------------------------------------------------------------------
-- Sizes and roots
-- ---------------------------------------------------------------------------

@[simp]
theorem size_push : (s.push n).size = s.size + 1 := by
  simp [push, size]

@[simp]
theorem size_modify : (s.modify id f).size = s.size := by
  simp [modify, size]

@[simp]
theorem size_setNode : (s.setNode id n).size = s.size := size_modify

@[simp]
theorem size_setSlots : (s.setSlots id slots).size = s.size := size_modify

@[simp]
theorem size_setRoot : (s.setRoot slots).size = s.size := rfl

@[simp]
theorem root_push : (s.push n).root = s.root := rfl

@[simp]
theorem root_modify : (s.modify id f).root = s.root := rfl

@[simp]
theorem root_setNode : (s.setNode id n).root = s.root := rfl

@[simp]
theorem root_setSlots : (s.setSlots id slots).root = s.root := rfl

@[simp]
theorem root_setRoot : (s.setRoot slots).root = slots := rfl

-- ---------------------------------------------------------------------------
-- Entries
-- ---------------------------------------------------------------------------

theorem entry_push_of_lt (h : x < s.size) : (s.push n).entry x = s.entry x := by
  unfold entry push
  have hx : x < s.entries.size := h
  simp only [Array.getElem?_push_lt hx, Array.getElem?_eq_getElem hx]

theorem entry_push_size : (s.push n).entry s.size = ⟨n, []⟩ := by
  simp [entry, push, size]

theorem entry_modify_self (h : id < s.size) : (s.modify id f).entry id = f (s.entry id) := by
  have hid : id < s.entries.size := h
  rw [entry, modify, entry, Array.getElem?_modify, if_pos rfl, Array.getElem?_eq_getElem hid]
  rfl

theorem entry_modify_of_ne (h : x ≠ id) : (s.modify id f).entry x = s.entry x := by
  unfold entry modify
  rw [Array.getElem?_modify]
  simp [h.symm]

theorem entry_setNode_of_ne (h : x ≠ id) : (s.setNode id n).entry x = s.entry x :=
  entry_modify_of_ne h

theorem entry_setSlots_of_ne (h : x ≠ id) : (s.setSlots id slots).entry x = s.entry x :=
  entry_modify_of_ne h

@[simp]
theorem entry_setRoot : (s.setRoot slots).entry x = s.entry x := rfl

theorem node_setNode_self (h : id < s.size) : (s.setNode id n).node id = n := by
  rw [node, setNode, entry_modify_self h]

theorem slots_setNode_self (h : id < s.size) : (s.setNode id n).slots id = s.slots id := by
  rw [Store.slots, setNode, entry_modify_self h, Store.slots]

theorem slots_setSlots_self (h : id < s.size) : (s.setSlots id slots).slots id = slots := by
  rw [Store.slots, setSlots, entry_modify_self h]

@[simp]
theorem node_setSlots : (s.setSlots id slots).node x = s.node x := by
  by_cases hx : x = id
  · subst hx
    by_cases hlt : x < s.size
    · rw [node, setSlots, entry_modify_self hlt, node]
    · have hnone : ∀ t : Store, t.size = s.size → t.entry x = default := by
        intro t ht
        have : t.entries.size ≤ x := by
          have : t.entries.size = s.size := ht
          omega
        rw [entry, Array.getElem?_eq_none this]
        rfl
      rw [node, node, hnone _ rfl, hnone _ size_setSlots]
  · rw [node, entry_setSlots_of_ne hx, node]

@[simp]
theorem family_setSlots : (s.setSlots id slots).family x = s.family x := by
  rw [family, node_setSlots, family]

theorem node_eq_of_entry (h : s'.entry x = s.entry x) : s'.node x = s.node x := by
  rw [node, h, node]

theorem slots_eq_of_entry (h : s'.entry x = s.entry x) : s'.slots x = s.slots x := by
  rw [Store.slots, h, Store.slots]

theorem family_eq_of_entry (h : s'.entry x = s.entry x) : s'.family x = s.family x := by
  rw [family, node_eq_of_entry h, family]

-- ---------------------------------------------------------------------------
-- Growth
-- ---------------------------------------------------------------------------

/-- A store after some nodes were put in. -/
structure Extends (s s' : Store) : Prop where
  size_le : s.size ≤ s'.size
  root_eq : s'.root = s.root
  entry_eq : ∀ x < s.size, s'.entry x = s.entry x

theorem Extends.refl (s : Store) : Extends s s :=
  ⟨Nat.le_refl _, rfl, fun _ _ => rfl⟩

theorem Extends.trans (h : Extends s s') (h' : Extends s' s'') : Extends s s'' where
  size_le := Nat.le_trans h.size_le h'.size_le
  root_eq := h'.root_eq.trans h.root_eq
  entry_eq x hx := (h'.entry_eq x (Nat.lt_of_lt_of_le hx h.size_le)).trans (h.entry_eq x hx)

theorem extends_push : Extends s (s.push n) where
  size_le := by simp
  root_eq := rfl
  entry_eq _ hx := entry_push_of_lt hx

/-- What is done to an entry that was not there before does not show in the old ones. -/
theorem Extends.setSlots (h : Extends s s') (hid : s.size ≤ id) :
    Extends s (s'.setSlots id slots) where
  size_le := by simpa using h.size_le
  root_eq := h.root_eq
  entry_eq x hx := by
    rw [entry_setSlots_of_ne (by omega)]
    exact h.entry_eq x hx

end Literate.Store
