import Literate.Proofs.Store.Numbering

/-!
# Nodes in pre-order

A tree has its nodes in reading order, each before the nodes below it (`Node.preOrder`). A store has the
numbers of a tree in an order of its own: from the number of the root one can walk to the numbers in the
slots of its entry, and on from there (`Store.walk`). Where a tree was put in, the two agree: the walk
meets the next free numbers one after another, and the entries behind the old ones hold the nodes of the
tree, without their children, in the same order (`Store.Adds`).

Main results:

* `Stored.walkWithin_eq`: the walk through a tree that is stored meets its footprint.
* `insert_adds`: what putting a tree in adds to the entries.
* `insert_in_preOrder`: both together, for trees and for whole documents.
-/

namespace Literate

-- ---------------------------------------------------------------------------
-- Trees
-- ---------------------------------------------------------------------------

/-- The nodes of a tree in reading order, each before the nodes below it. -/
def Node.preOrder (n : Node) : List Node :=
  n :: n.children.attach.flatMap fun slot => slot.1.toList.attach.flatMap fun child =>
    child.1.preOrder
termination_by n.size
decreasing_by exact Node.size_lt_of_mem_children slot.2 child.2

theorem Node.preOrder_eq (n : Node) :
    n.preOrder = n :: (n.children.flatMap Slot.toList).flatMap preOrder := by
  rw [preOrder, List.flatMap_assoc]
  congr 1
  simp only [List.flatMap_subtype, List.unattach_attach]

/-- The nodes of a document in reading order, each before the nodes below it: those of the metadata, key
by key, then those of the blocks. -/
def Document.preOrder (d : Document) : List Node :=
  (d.children.flatMap Slot.toList).flatMap Node.preOrder

/-- What the members come to, one after another, is the whole footprint. -/
theorem Along.flatMap_eq {α β : Type} {R : α → β → List Nat → Prop} {as : List α} {bs : List β}
    {f : List Nat} {φ : α → List Nat} (h : Along R as bs f)
    (hφ : ∀ a b g, g.Sublist f → R a b g → φ a = g) : as.flatMap φ = f := by
  induction h with
  | nil => rfl
  | @cons a b as bs g g' head tail ih =>
    have hhead : φ a = g := hφ a b g (List.sublist_append_left g g') head
    have htail : as.flatMap φ = g' := by
      refine ih fun a b k hk hR => hφ a b k (hk.trans ?_) hR
      exact List.sublist_append_right g g'
    rw [List.flatMap_cons, hhead, htail]

namespace Store

variable {s s' s'' : Store} {id : Nat} {n : Node} {f : List Nat}

-- ---------------------------------------------------------------------------
-- Walking
-- ---------------------------------------------------------------------------

/-- The numbers met in the tree below a number on the first `depth` levels: the number, and then what is
met from the numbers in its slots, one after another. -/
def walkWithin (s : Store) : Nat → NodeId → List NodeId
  | 0, _ => []
  | depth + 1, id => id :: ((s.slots id).flatMap Slot.toList).flatMap (s.walkWithin depth)

/-- The numbers met from a number on. A tree has no more levels than the store has entries. -/
def walk (s : Store) (id : NodeId) : List NodeId :=
  s.walkWithin s.size id

/-- The numbers met from the containers of the document on. -/
def walkAll (s : Store) : List NodeId :=
  (s.root.flatMap Slot.toList).flatMap s.walk

/-- The walk through a tree that is stored meets its entries, in reading order. -/
theorem Stored.walkWithin_eq (h : Stored s id n f) {depth : Nat} (hdepth : f.length ≤ depth) :
    s.walkWithin depth id = f := by
  induction h using Stored.induction generalizing depth with
  | step id n below lt shell_eq children ih =>
    cases depth with
    | zero => simp at hdepth
    | succ depth =>
      have hbelow : ((s.slots id).flatMap Slot.toList).flatMap (s.walkWithin depth) = below := by
        refine ih.toList.flatMap_eq fun c m g hg ⟨_, hwalk⟩ => hwalk ?_
        have := hg.length_le
        simp only [List.length_cons] at hdepth
        omega
      rw [walkWithin, hbelow]

theorem Stored.walk_eq (h : Stored s id n f) (hf : f.Nodup) : s.walk id = f :=
  h.walkWithin_eq (length_le_size_of_nodup hf fun _ hx => h.lt_of_mem hx)

-- ---------------------------------------------------------------------------
-- What the entries hold
-- ---------------------------------------------------------------------------

/-- The nodes in the entries of a store. -/
def nodes (s : Store) : List Node :=
  s.entries.toList.map Entry.node

@[simp]
theorem nodes_push : (s.push n).nodes = s.nodes ++ [n] := by
  simp [nodes, push]

@[simp]
theorem nodes_setSlots {slots : List (Slot NodeId)} : (s.setSlots id slots).nodes = s.nodes := by
  unfold nodes setSlots modify
  refine List.ext_getElem (by simp) fun k hk hk' => ?_
  simp only [Array.toList_modify, List.getElem_map, List.getElem_modify]
  split <;> rfl

/-- Behind the nodes that were there come others, without their children. -/
def Adds (s s' : Store) (added : List Node) : Prop :=
  s'.nodes = s.nodes ++ added.map Node.shell

theorem Adds.refl (s : Store) : Adds s s [] := by
  unfold Adds
  simp

theorem Adds.append {added later : List Node} (h : Adds s s' added) (hlater : Adds s' s'' later) :
    Adds s s'' (added ++ later) := by
  unfold Adds at *
  rw [hlater, h, List.map_append, List.append_assoc]

theorem insertAll_adds {ns : List Node}
    (hinsert : ∀ n ∈ ns, ∀ s : Store, Adds s (s.insert n).2 n.preOrder) (s : Store) :
    Adds s (s.insertAll ns).2 (ns.flatMap Node.preOrder) := by
  induction ns generalizing s with
  | nil =>
    rw [insertAll]
    exact .refl s
  | cons n ns ih =>
    obtain ⟨hn, hns⟩ := List.forall_mem_cons.mp hinsert
    rw [insertAll, List.flatMap_cons]
    exact (hn s).append (ih hns _)

/-- Entries are put in as their nodes are. -/
theorem insertEntries_eq (entries : List (String × Node)) (s : Store) :
    (s.insertEntries entries).2 = (s.insertAll (entries.map (·.2))).2 := by
  induction entries generalizing s with
  | nil =>
    rw [insertEntries, List.map_nil, insertAll]
  | cons entry entries ih =>
    obtain ⟨key, n⟩ := entry
    rw [insertEntries, List.map_cons, insertAll]
    exact ih _

theorem insertSlots_adds {slots : List (Slot Node)}
    (hinsert : ∀ slot ∈ slots, ∀ n ∈ slot.toList, ∀ s : Store, Adds s (s.insert n).2 n.preOrder)
    (s : Store) :
    Adds s (s.insertSlots slots).2 ((slots.flatMap Slot.toList).flatMap Node.preOrder) := by
  induction slots generalizing s with
  | nil =>
    rw [insertSlots]
    exact .refl s
  | cons slot slots ih =>
    obtain ⟨hslot, hslots⟩ := List.forall_mem_cons.mp hinsert
    rw [List.flatMap_cons, List.flatMap_append]
    cases slot with
    | single n =>
      rw [insertSlots, Slot.toList, List.flatMap_singleton]
      exact (hslot n (List.mem_singleton_self n) s).append (ih hslots _)
    | sequence ns =>
      rw [insertSlots]
      exact (insertAll_adds hslot s).append (ih hslots _)
    | map entries =>
      have hentries : Adds s (s.insertEntries entries).2 ((entries.map (·.2)).flatMap Node.preOrder) := by
        rw [insertEntries_eq]
        exact insertAll_adds hslot s
      rw [insertSlots]
      exact hentries.append (ih hslots _)

/-- Putting a tree in adds its nodes to the entries, in pre-order. -/
theorem insert_adds (n : Node) (s : Store) : Adds s (s.insert n).2 n.preOrder := by
  induction n using Node.induction generalizing s with
  | step n ih =>
    have hroot : Adds s (s.push n.shell) [n] := nodes_push
    have hbelow := insertSlots_adds ih (s.push n.shell)
    -- The slots of the root are set when its children are in, and the nodes are not touched by that.
    have hall := hroot.append hbelow
    rw [insert, Node.preOrder_eq]
    unfold Adds at *
    rw [nodes_setSlots]
    exact hall

theorem ofDocument_adds (d : Document) : Adds empty (ofDocument d) d.preOrder := by
  have hadds : Adds empty (empty.insertSlots d.children).2 d.preOrder :=
    insertSlots_adds (fun _ _ n _ s => insert_adds n s) empty
  -- The containers of a document are no entries.
  rw [ofDocument]
  exact hadds

-- ---------------------------------------------------------------------------
-- Numbers and nodes
-- ---------------------------------------------------------------------------

theorem Adds.size_eq {added : List Node} (h : Adds s s' added) :
    s'.size = s.size + added.length := by
  have hlength := congrArg List.length h
  simpa [nodes, size] using hlength

/-- Every node of a tree comes once in pre-order. -/
theorem length_preOrder (n : Node) : n.preOrder.length = n.size := by
  have hadds := (insert_adds n empty).size_eq
  have hgrows := (insert_fills n empty).grows.size_eq
  omega

theorem length_document_preOrder (d : Document) : d.preOrder.length = Node.sizeOfSlots d.children := by
  have hadds := (ofDocument_adds d).size_eq
  have hsize := size_ofDocument d
  have hempty : empty.size = 0 := rfl
  omega

/-- The walk through a tree that was put in meets the numbers that were free, in their order. -/
theorem walk_insert (n : Node) (s : Store) :
    (s.insert n).2.walk s.size = List.range' s.size n.preOrder.length := by
  have hstored := insert_stored n s
  rw [insert_id] at hstored
  rw [length_preOrder]
  exact hstored.walk_eq (List.nodup_range' ..)

theorem walkAll_ofDocument (d : Document) :
    (ofDocument d).walkAll = List.range d.preOrder.length := by
  have hstored := ofDocument_stored d
  rw [List.range_eq_range', length_document_preOrder]
  refine hstored.toList.flatMap_eq fun c m g hg hc => hc.walk_eq ?_
  exact (List.nodup_range' ..).sublist hg

/-- **Numbers are given out in pre-order.** A tree that is put in gets the next number that is free; the
containers of the document and the old entries stay as they are; behind them stands one entry for each
node of the tree, which holds the node without its children; and the walk from the root through the slots
meets the numbers of these entries one after another, in the order of the nodes. So the nodes of a
document that is put in a store have the numbers from `0` on in pre-order. -/
theorem insert_in_preOrder :
    (∀ (s : Store) (n : Node),
      (s.insert n).1 = s.size ∧ Extends s (s.insert n).2 ∧
        (s.insert n).2.size = s.size + n.preOrder.length ∧
        (s.insert n).2.nodes = s.nodes ++ n.preOrder.map Node.shell ∧
        Stored (s.insert n).2 s.size n (List.range' s.size n.preOrder.length) ∧
        (s.insert n).2.walk s.size = List.range' s.size n.preOrder.length) ∧
      ∀ d : Document,
        (ofDocument d).size = d.preOrder.length ∧
          (ofDocument d).nodes = d.preOrder.map Node.shell ∧
          (ofDocument d).walkAll = List.range (ofDocument d).size := by
  refine ⟨fun s n => ?_, fun d => ?_⟩
  · have hadds := insert_adds n s
    have hstored := insert_stored n s
    rw [insert_id, ← length_preOrder] at hstored
    exact ⟨insert_id n s, insert_extends n s, hadds.size_eq, hadds, hstored, walk_insert n s⟩
  · have hadds := ofDocument_adds d
    have hsize : (ofDocument d).size = d.preOrder.length := by
      rw [hadds.size_eq]
      exact Nat.zero_add _
    refine ⟨hsize, hadds, ?_⟩
    rw [hsize]
    exact walkAll_ofDocument d

end Store

end Literate
