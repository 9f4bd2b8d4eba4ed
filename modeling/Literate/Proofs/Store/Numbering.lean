import Literate.Proofs.Store.Settling

/-!
# Nodes by number

Where a document is put into a store, its nodes get numbers in reading order, each node before the nodes
below it. The numbers can be had without the store: a child that comes after others has the first number
that these leave free (`Node.numberSlots`). With numbers, replacing some of the nodes of a document is a
recursion over the document (`Node.replaced`): a node that is replaced gives way as a whole, and what is
below it is not looked at.

Main results:

* `ordered_ofDocument`: the nodes of a document in a store have the numbers that are given out here.
* `Node.replaced_of_free`: a tree in which nothing is replaced stays as it is.
* `Document.replaced_none`: so does a document.
-/

namespace Literate

-- ---------------------------------------------------------------------------
-- Giving out numbers
-- ---------------------------------------------------------------------------

/-- Gives numbers to the members of a list. Each takes as many as its size. -/
def numbered {α β : Type} (size : α → Nat) (number : Nat → α → β) (first : Nat) :
    List α → List β
  | [] => []
  | a :: as => number first a :: numbered size number (first + size a) as

section

variable {α β γ : Type} {size : α → Nat} {number : Nat → α → β}

/-- What does not depend on the numbers. -/
theorem map_numbered {φ : β → γ} {ψ : α → γ} (h : ∀ id a, φ (number id a) = ψ a) (first : Nat)
    (as : List α) : (numbered size number first as).map φ = as.map ψ := by
  induction as generalizing first with
  | nil => rfl
  | cons a as ih => rw [numbered, List.map_cons, List.map_cons, h, ih]

/-- A member has all its numbers among those of the list. -/
theorem exists_of_mem_numbered {first : Nat} {as : List α} {b : β}
    (h : b ∈ numbered size number first as) :
    ∃ id : Nat, ∃ a ∈ as, b = number id a ∧ first ≤ id ∧ id + size a ≤ first + (as.map size).sum := by
  induction as generalizing first with
  | nil => cases h
  | cons a as ih =>
    rw [List.map_cons, List.sum_cons]
    rcases List.mem_cons.mp h with rfl | h
    · exact ⟨first, a, List.mem_cons_self .., rfl, Nat.le_refl _, by omega⟩
    · obtain ⟨id, a', ha', hb, hle, hlt⟩ := ih h
      exact ⟨id, a', List.mem_cons_of_mem _ ha', hb, by omega, by omega⟩

end

namespace Node

/-- The nodes in a slot with their numbers. -/
def numberSlot (first : Nat) : Slot Node → Slot (Nat × Node)
  | .single n => .single (first, n)
  | .sequence ns => .sequence (numbered size Prod.mk first ns)
  | .map entries =>
    .map (numbered (fun entry => entry.2.size) (fun id entry => (entry.1, id, entry.2)) first entries)

/-- The nodes in slots with their numbers, from `first` on. -/
def numberSlots (first : Nat) (slots : List (Slot Node)) : List (Slot (Nat × Node)) :=
  numbered (fun slot => sizeOfAll slot.toList) numberSlot first slots

theorem sizeOfAll_eq_sum (nodes : List Node) : sizeOfAll nodes = (nodes.map size).sum := by
  induction nodes with
  | nil => rfl
  | cons n nodes ih => rw [sizeOfAll, ih, List.map_cons, List.sum_cons]

theorem sizeOfSlots_eq_sum (slots : List (Slot Node)) :
    sizeOfSlots slots = (slots.map fun slot => sizeOfAll slot.toList).sum := by
  induction slots with
  | nil => rfl
  | cons slot slots ih => rw [sizeOfSlots, ih, List.map_cons, List.sum_cons]

/-- Without the numbers a slot is as it was. -/
theorem replace_numberSlot (first : Nat) (slot : Slot Node) :
    (numberSlot first slot).replace Prod.snd = slot := by
  cases slot with
  | single n => rfl
  | sequence ns =>
    have hns : (numbered size Prod.mk first ns).map Prod.snd = ns.map id := by
      refine map_numbered ?_ first ns
      exact fun _ _ => rfl
    rw [numberSlot, Slot.replace, hns, List.map_id]
  | map entries =>
    have hentries : (numbered (fun entry => entry.2.size) (fun id entry => (entry.1, id, entry.2)) first
        entries).map (fun entry => (entry.1, entry.2.2)) = entries.map id := by
      refine map_numbered ?_ first entries
      exact fun _ _ => rfl
    rw [numberSlot, Slot.replace, hentries, List.map_id]

theorem replace_numberSlots (first : Nat) (slots : List (Slot Node)) :
    (numberSlots first slots).map (Slot.replace Prod.snd) = slots := by
  have hslots : (numbered (fun slot => sizeOfAll slot.toList) numberSlot first slots).map
      (Slot.replace Prod.snd) = slots.map id :=
    map_numbered replace_numberSlot first slots
  rw [numberSlots, hslots, List.map_id]

theorem nodes_numberSlot (first : Nat) (slot : Slot Node) :
    (numberSlot first slot).toList.map Prod.snd = slot.toList := by
  rw [← Slot.toList_replace, replace_numberSlot]

theorem of_mem_numberSlot {first : Nat} {slot : Slot Node} {c : Nat × Node}
    (h : c ∈ (numberSlot first slot).toList) :
    first ≤ c.1 ∧ c.1 + c.2.size ≤ first + sizeOfAll slot.toList := by
  rw [sizeOfAll_eq_sum]
  cases slot with
  | single n =>
    rw [List.mem_singleton.mp h]
    simp [Slot.toList]
  | sequence ns =>
    obtain ⟨id, n, _, rfl, hle, hlt⟩ := exists_of_mem_numbered h
    exact ⟨hle, hlt⟩
  | map entries =>
    obtain ⟨entry, hentry, rfl⟩ := List.mem_map.mp h
    obtain ⟨id, n, _, rfl, hle, hlt⟩ := exists_of_mem_numbered hentry
    refine ⟨hle, ?_⟩
    rwa [Slot.toList, List.map_map]

/-- The nodes that are numbered are those that there are, and their numbers are those that are given
out. -/
theorem of_mem_numberSlots {first : Nat} {slots : List (Slot Node)} {slot : Slot (Nat × Node)}
    (h : slot ∈ numberSlots first slots) :
    (∃ slot' ∈ slots, slot.toList.map Prod.snd = slot'.toList) ∧
      ∀ c ∈ slot.toList, first ≤ c.1 ∧ c.1 + c.2.size ≤ first + sizeOfSlots slots := by
  obtain ⟨id, slot', hslot', rfl, hle, hlt⟩ := exists_of_mem_numbered h
  refine ⟨⟨slot', hslot', nodes_numberSlot id slot'⟩, fun c hc => ?_⟩
  have hbounds := of_mem_numberSlot hc
  rw [sizeOfSlots_eq_sum]
  omega

theorem numberSlots_follow {layout : List (SlotKind × Family)} {slots : List (Slot Node)}
    (h : Slot.AllFollow family layout slots) (first : Nat) :
    Slot.AllFollow (fun c => c.2.family) layout (numberSlots first slots) := by
  unfold Slot.AllFollow at h
  induction h generalizing first with
  | nil => exact .nil
  | @cons place slot _ _ hslot _ ih =>
    refine .cons ⟨?_, fun c hc => hslot.2 c.2 ?_⟩ (ih _)
    · rw [← Slot.kind_replace Prod.snd, replace_numberSlot, hslot.1]
    · rw [← nodes_numberSlot first slot]
      exact List.mem_map_of_mem hc

end Node

-- ---------------------------------------------------------------------------
-- Replacing nodes by number
-- ---------------------------------------------------------------------------

namespace Node

mutual

/-- What stands for the node with a number when all nodes for which `find` has something are replaced. -/
def replaced (find : Nat → Option (List Node)) (id : Nat) (n : Node) : Stead :=
  match find id with
  | some nodes => ⟨n.family, lift n.family nodes⟩
  | none =>
    ⟨n.family, [n.fill ((numberSlots (id + 1) n.children).attach.map fun slot =>
      (replacedSlot find slot.1).fit)]⟩
termination_by (n.size, 0)
decreasing_by
  obtain ⟨_, hslot, heq⟩ := (of_mem_numberSlots slot.2).1
  exact .left _ _ (heq ▸ sizeOfAll_lt_of_mem_children hslot)

/-- What stands for the nodes in a slot. -/
def replacedSlot (find : Nat → Option (List Node)) (slot : Slot (Nat × Node)) : Slot Stead :=
  match slot with
  | .single c => .single (replaced find c.1 c.2)
  | .sequence cs => .sequence (cs.map fun c => replaced find c.1 c.2)
  | .map entries => .map (entries.map fun entry => (entry.1, replaced find entry.2.1 entry.2.2))
termination_by (sizeOfAll (slot.toList.map Prod.snd), 1)
decreasing_by
  · exact Prod.Lex.right' _ (size_le_sizeOfAll (List.mem_singleton_self c.2)) Nat.zero_lt_one
  · next hc => exact Prod.Lex.right' _ (size_le_sizeOfAll (List.mem_map_of_mem hc)) Nat.zero_lt_one
  · next hentry =>
    have hc : entry.2 ∈ (Slot.map entries).toList := List.mem_map_of_mem hentry
    exact Prod.Lex.right' _ (size_le_sizeOfAll (List.mem_map_of_mem hc)) Nat.zero_lt_one

end

variable {find : Nat → Option (List Node)} {id : Nat} {n : Node}

/-- What stands for a node that has a number. -/
def steadOf (find : Nat → Option (List Node)) (c : Nat × Node) : Stead :=
  c.2.replaced find c.1

theorem replacedSlot_eq (find : Nat → Option (List Node)) :
    replacedSlot find = Slot.replace (steadOf find) := by
  funext slot
  cases slot with
  | single c => rw [replacedSlot]; rfl
  | sequence cs => rw [replacedSlot]; rfl
  | map entries => rw [replacedSlot]; rfl

/-- Slots, with numbers from `first` on, in which nodes are replaced. -/
def replacedSlots (find : Nat → Option (List Node)) (first : Nat) (slots : List (Slot Node)) :
    List (Slot Node) :=
  ((numberSlots first slots).map (Slot.replace (steadOf find))).map Slot.fit

theorem replaced_of_some {nodes : List Node} (h : find id = some nodes) :
    n.replaced find id = ⟨n.family, lift n.family nodes⟩ := by
  rw [replaced, h]

theorem replaced_of_none (h : find id = none) :
    n.replaced find id = ⟨n.family, [n.fill (replacedSlots find (id + 1) n.children)]⟩ := by
  rw [replaced, h, replacedSlot_eq, replacedSlots, List.map_map]
  simp [Function.comp_def]

@[simp]
theorem replaced_family : (n.replaced find id).family = n.family := by
  rcases hfind : find id with _ | nodes
  · rw [replaced_of_none hfind]
  · rw [replaced_of_some hfind]

/-- A node for which there is nothing stays, with what is below it replaced. -/
theorem exists_self_of_none (h : find id = none) :
    ∃ m, n.replaced find id = .self m ∧ m.shell = n.shell := by
  refine ⟨n.fill (replacedSlots find (id + 1) n.children), ?_, shell_fill ..⟩
  rw [replaced_of_none h, Stead.self, family_fill]

/-- Whatever stands for a node is of its family. -/
theorem replaced_fits : (n.replaced find id).Fits := by
  intro m hm
  rcases hfind : find id with _ | nodes
  · rw [replaced_of_none hfind] at hm ⊢
    rw [List.mem_singleton.mp hm, family_fill]
  · rw [replaced_of_some hfind] at hm ⊢
    exact lift_family hm

/-- Slots in which nodes are replaced follow the same layout. -/
theorem replacedSlots_follow {layout : List (SlotKind × Family)} {slots : List (Slot Node)} (first : Nat)
    (h : Slot.AllFollow family layout slots)
    (hlayout : ∀ place ∈ layout, place.1 = .map → place.2 = .metadata) :
    Slot.AllFollow family layout (replacedSlots find first slots) := by
  have hsteads := Slot.replace_follow (numberSlots_follow h first) fun c =>
    (replaced_family : (steadOf find c).family = c.2.family)
  refine Slot.fit_follow hsteads (fun slot hslot st hst => ?_) hlayout
  obtain ⟨slot, _, rfl⟩ := List.mem_map.mp hslot
  rw [Slot.toList_replace] at hst
  obtain ⟨c, _, rfl⟩ := List.mem_map.mp hst
  exact replaced_fits

/-- Where all nodes stay, so do the slots. -/
theorem replacedSlots_eq_self {first : Nat} {slots : List (Slot Node)}
    (h : ∀ slot ∈ numberSlots first slots, ∀ c ∈ slot.toList, steadOf find c = .self c.2) :
    replacedSlots find first slots = slots := by
  have hfit : ∀ slot ∈ numberSlots first slots,
      (Slot.fit ∘ Slot.replace (steadOf find)) slot = slot.replace Prod.snd :=
    fun slot hslot => Slot.fit_replace_self (h slot hslot)
  rw [replacedSlots, List.map_map, List.map_congr_left hfit, replace_numberSlots]

/-- A tree in which nothing is replaced stays as it is. -/
theorem replaced_of_free (h : ∀ x : Nat, id ≤ x → x < id + n.size → find x = none) :
    n.replaced find id = .self n := by
  induction n using Node.induction generalizing id with
  | step n ih =>
    have hsize := n.size_eq
    have hkids : replacedSlots find (id + 1) n.children = n.children := by
      refine replacedSlots_eq_self fun slot hslot c hc => ?_
      obtain ⟨⟨slot', hslot', hnodes⟩, hbounds⟩ := of_mem_numberSlots hslot
      have hmem : c.2 ∈ slot'.toList := hnodes ▸ List.mem_map_of_mem hc
      have hc := hbounds c hc
      exact ih slot' hslot' c.2 hmem fun x hle hlt => h x (by omega) (by omega)
    rw [replaced_of_none (h id (Nat.le_refl _) (by omega)), hkids, fill_eq_of_shell rfl, Stead.self]

@[simp]
theorem replacedSlots_none (first : Nat) (slots : List (Slot Node)) :
    replacedSlots (fun _ => none) first slots = slots :=
  replacedSlots_eq_self fun _ _ _ _ => replaced_of_free fun _ _ _ => rfl

end Node

namespace Document

/-- A document in which all nodes for which `find` has something are replaced. -/
def replaced (find : Nat → Option (List Node)) (d : Document) : Document :=
  filled (Node.replacedSlots find 0 d.children)

/-- A document in which nothing is replaced stays as it is. -/
theorem replaced_none (d : Document) : d.replaced (fun _ => none) = d := by
  rw [replaced, Node.replacedSlots_none, filled, ofChildren_children]

end Document

-- ---------------------------------------------------------------------------
-- The numbers of a store
-- ---------------------------------------------------------------------------

section

variable {α β γ : Type} {R : α → β → List Nat → Prop} {R' : α → γ → List Nat → Prop} {f : List Nat}

/-- Members whose footprints are as long as their sizes, and together are a run of numbers, have the
numbers that are given out. -/
theorem Along.numbered {as : List α} {bs : List β} {size : β → Nat} {number : Nat → β → γ} {first : Nat}
    (h : Along R as bs f) (hf : f = List.range' first f.length)
    (hsize : ∀ a b g, R a b g → g.length = size b)
    (himp : ∀ a b g first, R a b g → g = List.range' first g.length → R' a (number first b) g) :
    Along R' as (numbered size number first bs) f := by
  induction h generalizing first with
  | nil => exact .nil
  | @cons a b _ _ g g' head _ ih =>
    rw [List.length_append, ← List.range'_append_1] at hf
    obtain ⟨hg, hg'⟩ := List.append_inj hf (List.length_range' ..).symm
    rw [hsize a b g head] at hg'
    exact .cons (himp a b g first head hg) (ih hg')

end

namespace Store

variable {s : Store} {id first : Nat} {n : Node} {f : List Nat}

/-- A tree at its number. The nodes below have the numbers that follow. -/
structure Ordered (s : Store) (id : Nat) (c : Nat × Node) (f : List Nat) : Prop where
  number_eq : c.1 = id
  footprint_eq : f = List.range' c.1 c.2.size
  stored : Stored s id c.2 f

theorem length_of_slotAlong {α : Type} {R : α → Node → List Nat → Prop} {slot : Slot α} {kid : Slot Node}
    (h : SlotAlong R slot kid f) (hsize : ∀ a n g, R a n g → g.length = n.size) :
    f.length = Node.sizeOfAll kid.toList := by
  rw [Node.sizeOfAll_eq_sum]
  exact h.toList.length_footprint hsize

/-- A tree has one entry for each of its nodes. -/
theorem Stored.length_eq (h : Stored s id n f) : f.length = n.size := by
  induction h using Stored.induction with
  | step id n below _ _ _ ih =>
    have hbelow : below.length = Node.sizeOfSlots n.children := by
      rw [Node.sizeOfSlots_eq_sum]
      exact Along.length_footprint ih fun _ _ _ hslot => length_of_slotAlong hslot fun _ _ _ ⟨_, hc⟩ => hc
    rw [List.length_cons, hbelow, Node.size_eq, Nat.add_comm]

theorem Stored.ordered (h : Stored s id n f) (hf : f = List.range' first f.length) :
    Ordered s id (first, n) f := by
  have hlength := h.length_eq
  obtain rfl : first = id := by
    cases h with
    | intro lt shell_eq children =>
      rw [List.length_cons, List.range'_succ] at hf
      exact (List.cons.inj hf).1.symm
  exact ⟨rfl, hlength ▸ hf, h⟩

theorem slotAlong_numbered {slot : Slot NodeId} {kid : Slot Node} (h : SlotAlong (Stored s) slot kid f)
    (hf : f = List.range' first f.length) :
    SlotAlong (Ordered s) slot (Node.numberSlot first kid) f := by
  cases h with
  | single child => exact .single (child.ordered hf)
  | sequence children =>
    exact .sequence (children.numbered hf (fun _ _ _ hc => hc.length_eq) fun _ _ _ _ hc => hc.ordered)
  | map entries =>
    refine .map (entries.numbered hf (fun _ _ _ hentry => ?_) fun _ _ _ first hentry hg => ?_)
    · cases hentry with
      | mk key value => exact value.length_eq
    · cases hentry with
      | mk key value => exact .mk key (value.ordered hg)

/-- Trees whose nodes have a run of numbers have them as they are given out. -/
theorem slotsAlong_numbered {slots : List (Slot NodeId)} {kids : List (Slot Node)}
    (h : SlotsAlong (Stored s) slots kids f) (hf : f = List.range' first f.length) :
    SlotsAlong (Ordered s) slots (Node.numberSlots first kids) f :=
  Along.numbered h hf
    (fun _ _ _ hslot => length_of_slotAlong hslot fun _ _ _ hc => hc.length_eq)
    fun _ _ _ _ hslot hg => slotAlong_numbered hslot hg

/-- Below a number come the numbers that follow it. -/
theorem Ordered.below {c : Nat × Node} (h : Ordered s id c f) :
    ∃ below, f = id :: below ∧ (s.node id).shell = c.2.shell ∧
      SlotsAlong (Ordered s) (s.slots id) (Node.numberSlots (id + 1) c.2.children) below := by
  obtain ⟨rfl, hf, hstored⟩ := h
  obtain ⟨number, n⟩ := c
  cases hstored with
  | @intro _ _ below lt shell_eq children =>
    refine ⟨below, rfl, shell_eq, slotsAlong_numbered children ?_⟩
    have hlength := (Stored.intro lt shell_eq children).length_eq
    rw [← hlength, List.length_cons, List.range'_succ] at hf
    exact (List.cons.inj hf).2

/-- The nodes of a document in a store. -/
theorem ordered_ofDocument (d : Document) :
    SlotsAlong (Ordered (ofDocument d)) (ofDocument d).root (Node.numberSlots 0 d.children)
      (List.range' 0 (Node.sizeOfSlots d.children)) :=
  slotsAlong_numbered (ofDocument_stored d) (by rw [List.length_range'])

end Store

end Literate
