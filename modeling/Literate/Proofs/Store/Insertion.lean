import Literate.Proofs.Store.Entry
import Literate.Proofs.Store.Footprint

/-!
# Trees in a store

`Stored s id n f` says that the store `s` holds the tree `n` at the number `id`, and that the tree's
nodes are in the entries `f`, in reading order: the shell of `n` at `id`, and its children, slot by slot,
at the numbers in the slots of the entry.

Main results:

* `Stored.of_entries`: the tree stays where it is as long as the entries of its footprint do.
* `insert_stored`: a tree that is put in gets the next free numbers, one after another in reading order,
  and the old entries stay as they are.
* `ofDocument_stored`: the nodes of a document get the numbers from `0` on in reading order.
-/

namespace Literate.Store

/-- A tree, the number of its root, and the entries of its nodes. -/
inductive Stored (s : Store) : Nat → Node → List Nat → Prop where
  | intro {id : Nat} {n : Node} {below : List Nat} (lt : id < s.size)
      (shell_eq : (s.node id).shell = n.shell)
      (children : Along (SlotAlong (Stored s)) (s.slots id) n.children below) : Stored s id n (id :: below)

variable {s s' : Store} {id : Nat} {n : Node} {f : List Nat}

namespace Stored

/-- Induction on the tree that is stored. -/
@[elab_as_elim]
theorem induction {motive : ∀ (id : Nat) (n : Node) (f : List Nat), Stored s id n f → Prop}
    (step : ∀ (id : Nat) (n : Node) (below : List Nat) (lt : id < s.size)
      (shell_eq : (s.node id).shell = n.shell)
      (children : Along (SlotAlong (Stored s)) (s.slots id) n.children below),
      SlotsAlong (fun c m g => ∃ h : Stored s c m g, motive c m g h) (s.slots id) n.children below →
      motive id n (id :: below) (.intro lt shell_eq children))
    (h : Stored s id n f) : motive id n f h :=
  @Stored.rec s motive
    (fun slots kids g _ => SlotsAlong (fun c m g => ∃ h, motive c m g h) slots kids g)
    (fun slot kid g _ => SlotAlong (fun c m g => ∃ h, motive c m g h) slot kid g)
    (fun ids kids g _ => Along (fun c m g => ∃ h, motive c m g h) ids kids g)
    (fun ids kids g _ => Along (EntryAlong fun c m g => ∃ h, motive c m g h) ids kids g)
    (fun c m g _ => EntryAlong (fun c m g => ∃ h, motive c m g h) c m g)
    (fun lt shell_eq children ih => step _ _ _ lt shell_eq children ih)
    .nil (fun _ _ head tail => .cons head tail)
    (fun child ih => .single ⟨child, ih⟩) (fun _ children => .sequence children)
    (fun _ entries => .map entries)
    .nil (fun child _ ih tail => .cons ⟨child, ih⟩ tail)
    .nil (fun _ _ head tail => .cons head tail)
    (fun key child ih => .mk key ⟨child, ih⟩)
    id n f h

theorem id_mem (h : Stored s id n f) : id ∈ f := by
  cases h
  exact List.mem_cons_self ..

theorem lt_of_mem (h : Stored s id n f) {x : Nat} (hx : x ∈ f) : x < s.size := by
  induction h using Stored.induction with
  | step id n below lt _ _ ih =>
    rcases List.mem_cons.mp hx with rfl | hx
    · exact lt
    · obtain ⟨c, _, m, _, g, _, ⟨_, ih⟩, hxg⟩ := ih.toList.exists_of_mem_footprint hx
      exact ih hxg

theorem shell_eq (h : Stored s id n f) : (s.node id).shell = n.shell := by
  cases h with
  | intro _ shell_eq _ => exact shell_eq

theorem family_eq (h : Stored s id n f) : s.family id = n.family := by
  rw [family, ← Node.family_shell, h.shell_eq, Node.family_shell]

theorem layout_eq (h : Stored s id n f) : (s.node id).layout = n.layout := by
  rw [← Node.layout_shell, h.shell_eq, Node.layout_shell]

/-- A tree stays where it is as long as the entries of its nodes do. -/
theorem of_entries (h : Stored s id n f) (hsize : s.size ≤ s'.size)
    (hentry : ∀ x ∈ f, s'.entry x = s.entry x) : Stored s' id n f := by
  induction h using Stored.induction with
  | step id n below lt shell_eq _ ih =>
    have hid : s'.entry id = s.entry id := hentry id (List.mem_cons_self ..)
    refine .intro (Nat.lt_of_lt_of_le lt hsize) ?_ ?_
    · rwa [node_eq_of_entry hid]
    rw [slots_eq_of_entry hid]
    exact ih.imp_of_sublist fun c m g hg ⟨_, hc⟩ =>
      hc fun x hx => hentry x (List.mem_cons_of_mem _ (hg.subset hx))

theorem of_extends (h : Stored s id n f) (hs : Extends s s') : Stored s' id n f :=
  h.of_entries hs.size_le fun _ hx => hs.entry_eq _ (h.lt_of_mem hx)

/-- The numbers in the slots of a tree's root follow its layout. -/
theorem slots_follow (h : Stored s id n f) : Slot.AllFollow s.family n.layout (s.slots id) := by
  cases h with
  | intro _ _ children =>
    exact SlotsAlong.follow_of_follow children (fun _ _ _ hc => hc.family_eq)
      (Node.children_follow n)

end Stored

/-- There are no more numbers in use than entries. -/
theorem length_le_size_of_nodup (hf : f.Nodup) (hlt : ∀ x ∈ f, x < s.size) : f.length ≤ s.size := by
  have hsub : f ⊆ List.range s.size := fun x hx => List.mem_range.mpr (hlt x hx)
  have hle := (List.subperm_of_subset hf hsub).length_le
  rwa [List.length_range] at hle

-- ---------------------------------------------------------------------------
-- Putting trees in
-- ---------------------------------------------------------------------------

/-- Some nodes were put in, behind the entries that were there. -/
structure Grows (s s' : Store) (count : Nat) : Prop extends Extends s s' where
  size_eq : s'.size = s.size + count

theorem Grows.refl (s : Store) : Grows s s 0 where
  toExtends := .refl s
  size_eq := rfl

theorem Grows.trans {s'' : Store} {m k : Nat} (h : Grows s s' m) (h' : Grows s' s'' k) :
    Grows s s'' (m + k) where
  toExtends := h.toExtends.trans h'.toExtends
  size_eq := by rw [h'.size_eq, h.size_eq, Nat.add_assoc]

/-- Putting in `b`, which has `count` nodes, gave `result.1`; the nodes have the next free numbers in
reading order. -/
structure Fills {α β : Type} (R : Store → α → β → List Nat → Prop) (s : Store) (b : β) (count : Nat)
    (result : α × Store) : Prop where
  grows : Grows s result.2 count
  related : R result.2 result.1 b (List.range' s.size count)

section

variable {α β : Type} {R : Store → α → β → List Nat → Prop}

theorem Fills.nil : Fills (fun s => Along (R s)) s [] 0 ([], s) where
  grows := .refl s
  related := .nil

theorem Fills.cons {b : β} {bs : List β} {m k : Nat} {head : α × Store} {tail : List α × Store}
    (hhead : Fills R s b m head)
    (hstable : ∀ {s s' : Store} {a : α} {b : β} {f : List Nat}, Extends s s' → R s a b f → R s' a b f)
    (htail : Fills (fun s => Along (R s)) head.2 bs k tail) :
    Fills (fun s => Along (R s)) s (b :: bs) (m + k) (head.1 :: tail.1, tail.2) where
  grows := hhead.grows.trans htail.grows
  related := by
    have htail' := htail.related
    rw [hhead.grows.size_eq] at htail'
    rw [← List.range'_append_1]
    exact .cons (hstable htail.grows.toExtends hhead.related) htail'

end

theorem slotAlong_stored_of_extends {slot : Slot NodeId} {kid : Slot Node} (hs : Extends s s')
    (h : SlotAlong (Stored s) slot kid f) : SlotAlong (Stored s') slot kid f :=
  h.imp fun _ _ _ hc => hc.of_extends hs

theorem entryAlong_stored_of_extends {entry : String × NodeId} {kid : String × Node}
    (hs : Extends s s') (h : EntryAlong (Stored s) entry kid f) : EntryAlong (Stored s') entry kid f := by
  cases h with
  | mk key value => exact .mk key (value.of_extends hs)

theorem insertAll_fills {ns : List Node}
    (hinsert : ∀ n ∈ ns, ∀ s : Store, Fills Stored s n n.size (s.insert n)) (s : Store) :
    Fills (fun s => Along (Stored s)) s ns (Node.sizeOfAll ns) (s.insertAll ns) := by
  induction ns generalizing s with
  | nil =>
    rw [insertAll]
    exact .nil
  | cons n ns ih =>
    rw [insertAll]
    exact (hinsert n (List.mem_cons_self ..) s).cons (fun hs h => h.of_extends hs)
      (ih (fun m hm => hinsert m (List.mem_cons_of_mem _ hm)) _)

theorem insertEntries_fills {entries : List (String × Node)}
    (hinsert : ∀ n ∈ entries.map (·.2), ∀ s : Store, Fills Stored s n n.size (s.insert n))
    (s : Store) :
    Fills (fun s => Along (EntryAlong (Stored s))) s entries (Node.sizeOfAll (entries.map (·.2)))
      (s.insertEntries entries) := by
  induction entries generalizing s with
  | nil =>
    rw [insertEntries]
    exact .nil
  | cons entry entries ih =>
    obtain ⟨key, n⟩ := entry
    have hn := hinsert n (List.mem_cons_self ..) s
    have hhead : Fills (fun s => EntryAlong (Stored s)) s (key, n) n.size
        ((key, (s.insert n).1), (s.insert n).2) := ⟨hn.grows, .mk key hn.related⟩
    rw [insertEntries]
    exact hhead.cons entryAlong_stored_of_extends
      (ih (fun m hm => hinsert m (List.mem_cons_of_mem _ hm)) _)

theorem insertSlots_fills {slots : List (Slot Node)}
    (hinsert : ∀ slot ∈ slots, ∀ n ∈ slot.toList, ∀ s : Store,
      Fills Stored s n n.size (s.insert n)) (s : Store) :
    Fills (fun s => SlotsAlong (Stored s)) s slots (Node.sizeOfSlots slots) (s.insertSlots slots) := by
  induction slots generalizing s with
  | nil =>
    rw [insertSlots]
    exact .nil
  | cons slot slots ih =>
    have htail := fun s' => ih (fun t ht => hinsert t (List.mem_cons_of_mem _ ht)) s'
    have hmem := hinsert slot (List.mem_cons_self ..)
    cases slot with
    | single n =>
      have hn := hmem n (List.mem_singleton_self n) s
      have hhead : Fills (fun s => SlotAlong (Stored s)) s (.single n) _
          (.single (s.insert n).1, (s.insert n).2) := ⟨hn.grows, .single hn.related⟩
      rw [insertSlots]
      simpa [Node.sizeOfSlots, Node.sizeOfAll, Slot.toList] using
        hhead.cons slotAlong_stored_of_extends (htail _)
    | sequence ns =>
      have hns := insertAll_fills hmem s
      have hhead : Fills (fun s => SlotAlong (Stored s)) s (.sequence ns) _
          (.sequence (s.insertAll ns).1, (s.insertAll ns).2) := ⟨hns.grows, .sequence hns.related⟩
      rw [insertSlots]
      exact hhead.cons slotAlong_stored_of_extends (htail _)
    | map entries =>
      have hes := insertEntries_fills hmem s
      have hhead : Fills (fun s => SlotAlong (Stored s)) s (.map entries) _
          (.map (s.insertEntries entries).1, (s.insertEntries entries).2) :=
        ⟨hes.grows, .map hes.related⟩
      rw [insertSlots]
      exact hhead.cons slotAlong_stored_of_extends (htail _)

/-- A tree that is put in gets the next free numbers, one after another in reading order. -/
theorem insert_fills (n : Node) (s : Store) : Fills Stored s n n.size (s.insert n) := by
  induction n using Node.induction generalizing s with
  | step n ih =>
    -- The entry of the root stands before those of its children, and gets its slots after them.
    have hkids := insertSlots_fills (fun slot hslot child hchild => ih slot hslot child hchild)
      (s.push n.shell)
    rw [insert]
    set filled := (s.push n.shell).insertSlots n.children with hfilled
    have hsize : filled.2.size = s.size + n.size := by
      rw [hkids.grows.size_eq, size_push, Node.size_eq]
      omega
    have hlt : s.size < filled.2.size := by
      have := n.size_pos
      omega
    refine ⟨⟨(extends_push.trans hkids.grows.toExtends).setSlots (Nat.le_refl _), ?_⟩, ?_⟩
    · simpa using hsize
    · have hnode : filled.2.node s.size = n.shell := by
        rw [node, hkids.grows.entry_eq _ (by simp), entry_push_size]
      have hbelow := hkids.related
      rw [size_push] at hbelow
      rw [Node.size_eq, Nat.add_comm 1, List.range'_succ]
      refine .intro (by simpa using hlt) (by simp [hnode]) ?_
      rw [slots_setSlots_self hlt]
      refine hbelow.imp_of_sublist fun c m g hg hc => hc.of_entries (by simp) fun x hx => ?_
      have : s.size + 1 ≤ x := (List.mem_range'_1.mp (hg.subset hx)).1
      exact entry_setSlots_of_ne (by omega)

theorem insert_id (n : Node) (s : Store) : (s.insert n).1 = s.size := by
  rw [insert]

theorem insert_extends (n : Node) (s : Store) : Extends s (s.insert n).2 :=
  (insert_fills n s).grows.toExtends

theorem insert_stored (n : Node) (s : Store) :
    Stored (s.insert n).2 (s.insert n).1 n (List.range' s.size n.size) :=
  (insert_fills n s).related

/-- The nodes of a document get the numbers from `0` on, in reading order. -/
theorem ofDocument_stored (d : Document) :
    SlotsAlong (Stored (ofDocument d)) (ofDocument d).root d.children
      (List.range' 0 (Node.sizeOfSlots d.children)) := by
  have h := @insertSlots_fills d.children (fun _ _ n _ s => insert_fills n s) empty
  rw [ofDocument]
  exact SlotsAlong.imp h.related fun _ _ _ hc => hc.of_entries (Nat.le_refl _) fun _ _ => rfl

theorem size_ofDocument (d : Document) : (ofDocument d).size = Node.sizeOfSlots d.children := by
  have h := @insertSlots_fills d.children (fun _ _ n _ s => insert_fills n s) empty
  rw [ofDocument]
  show (empty.insertSlots d.children).2.size = _
  rw [h.grows.size_eq]
  exact Nat.zero_add _

end Literate.Store
