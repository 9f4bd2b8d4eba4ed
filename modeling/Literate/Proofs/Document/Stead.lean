import Literate.Proofs.Document.Layout

/-!
# What stands for a node

When a document is rewritten, each of its nodes gives way to some nodes, often to itself alone. A
`Stead` is what stands for one node in the end. Slots of steads become slots of nodes again by the rule
for places (`Slot.fit`): a sequence takes all nodes, a single place a container unless there is exactly
one node, and an entry of a map goes away if nothing stands for its value.

Main results:

* `lift_family`, `resolve_family`: whatever a replacement consists of, what it is fitted to is a run of
  nodes of the family of the place.
* `Slot.fit_follows`: steads of the right families fit into slots of the right families.
-/

namespace Literate

/-- Nodes that stand for one node, and the family of that node. -/
structure Stead where
  family : Family
  nodes : List Node

/-- Whether the nodes are of the family of the node they stand for. -/
def Stead.Fits (st : Stead) : Prop :=
  ∀ n ∈ st.nodes, n.family = st.family

namespace Node

/-- A run of nodes in a single place. -/
def collapse (family : Family) (nodes : List Node) : Node :=
  match nodes with
  | [n] => n
  | _ => (container family).fill [.sequence nodes]

/-- A run of nodes as the value of a map's entry. -/
def collapseEntry (key : String) (nodes : List Node) : Option (String × Node) :=
  if nodes.isEmpty then none else some (key, collapse .metadata nodes)

@[simp]
theorem collapse_singleton (family : Family) (n : Node) : collapse family [n] = n := rfl

theorem collapse_of_length_ne_one {family : Family} {nodes : List Node} (h : nodes.length ≠ 1) :
    collapse family nodes = (container family).fill [.sequence nodes] := by
  unfold collapse
  split
  · exact absurd rfl h
  · rfl

@[simp]
theorem collapseEntry_singleton (key : String) (n : Node) :
    collapseEntry key [n] = some (key, n) := rfl

theorem eq_of_collapseEntry {key : String} {nodes : List Node} {entry : String × Node}
    (h : collapseEntry key nodes = some entry) : entry = (key, collapse .metadata nodes) := by
  by_cases hempty : nodes.isEmpty
  · rw [collapseEntry, if_pos hempty] at h
    cases h
  · rw [collapseEntry, if_neg hempty] at h
    exact (Option.some.inj h).symm

theorem container_follow {family : Family} {nodes : List Node}
    (h : ∀ n ∈ nodes, n.family = family) :
    Slot.AllFollow Node.family (container family).layout [.sequence nodes] := by
  rw [layout_container]
  exact .cons ⟨rfl, h⟩ .nil

theorem family_collapse {family : Family} {nodes : List Node}
    (h : ∀ n ∈ nodes, n.family = family) : (collapse family nodes).family = family := by
  unfold collapse
  split
  · exact h _ (List.mem_singleton_self _)
  · rw [family_fill, family_container]

end Node

-- ---------------------------------------------------------------------------
-- The families of what replaces a node
-- ---------------------------------------------------------------------------

theorem of_allOf {family : Family} {nodes : List Node} (h : allOf family nodes = true) {n : Node}
    (hn : n ∈ nodes) : n.family = family :=
  of_decide_eq_true (List.all_eq_true.mp h n hn)

/-- Lifted nodes are of the family that they are lifted to. -/
theorem lift_family {family : Family} {nodes : List Node} {n : Node} (hn : n ∈ lift family nodes) :
    n.family = family := by
  cases family with
  | block =>
    obtain ⟨b, -, rfl⟩ := List.mem_map.mp hn
    rfl
  | inline =>
    obtain ⟨i, -, rfl⟩ := List.mem_map.mp hn
    rfl
  | metadata =>
    simp only [lift] at hn
    split at hn
    next hall => exact of_allOf hall hn
    next =>
      split at hn <;> rw [List.mem_singleton.mp hn] <;> rfl

/-- What is put into the place of a node is of its family. -/
theorem resolve_family {family : Family} {nodes spliced : List Node}
    (h : resolve family nodes = .splice spliced) {n : Node} (hn : n ∈ spliced) :
    n.family = family := by
  unfold resolve at h
  split at h
  next hall =>
    cases h
    exact of_allOf hall hn
  next =>
    cases family with
    | inline => cases h
    | block =>
      cases h
      exact lift_family hn
    | metadata =>
      cases h
      exact lift_family hn

/-- Only what replaces an inline has to be kept back. -/
theorem inline_of_resolve {family : Family} {nodes deferred : List Node}
    (h : resolve family nodes = .defer deferred) : family = .inline := by
  unfold resolve at h
  split at h
  · cases h
  · cases family with
    | inline => rfl
    | block => cases h
    | metadata => cases h

-- ---------------------------------------------------------------------------
-- Slots
-- ---------------------------------------------------------------------------

namespace Slot

/-- What is in a slot when steads are in the places of its children. -/
def fit : Slot Stead → Slot Node
  | .single st => .single (Node.collapse st.family st.nodes)
  | .sequence sts => .sequence (sts.flatMap (·.nodes))
  | .map entries => .map (entries.filterMap fun (key, st) => Node.collapseEntry key st.nodes)

variable {place : SlotKind × Family} {slot : Slot Stead}

/-- Steads for nodes of a family fit into the place for these nodes. -/
theorem fit_follows (hslot : slot.Follows Stead.family place)
    (hfits : ∀ st ∈ slot.toList, st.Fits) (hplace : place.1 = .map → place.2 = .metadata) :
    slot.fit.Follows Node.family place := by
  obtain ⟨hkind, hall⟩ := hslot
  cases slot with
  | single st =>
    refine ⟨hkind, fun n hn => ?_⟩
    have hst := List.mem_singleton_self st
    rw [List.mem_singleton.mp hn, Node.family_collapse (hfits st hst)]
    exact hall st hst
  | sequence sts =>
    refine ⟨hkind, fun n hn => ?_⟩
    obtain ⟨st, hst, hn⟩ := List.mem_flatMap.mp hn
    rw [hfits st hst n hn]
    exact hall st hst
  | map entries =>
    refine ⟨hkind, fun n hn => ?_⟩
    obtain ⟨kept, hkept, rfl⟩ := List.mem_map.mp hn
    obtain ⟨⟨key, st⟩, hentry, hst⟩ := List.mem_filterMap.mp hkept
    have hmem : st ∈ entries.map (·.2) := List.mem_map_of_mem hentry
    have hfamily : st.family = .metadata := by
      rw [hall st hmem, hplace hkind.symm]
    rw [Node.eq_of_collapseEntry hst, hplace hkind.symm]
    exact Node.family_collapse fun n hn => (hfits st hmem n hn).trans hfamily

theorem fit_follow {layout : List (SlotKind × Family)} {slots : List (Slot Stead)}
    (hslots : AllFollow Stead.family layout slots)
    (hfits : ∀ slot ∈ slots, ∀ st ∈ slot.toList, st.Fits)
    (hlayout : ∀ place ∈ layout, place.1 = .map → place.2 = .metadata) :
    AllFollow Node.family layout (slots.map fit) := by
  unfold AllFollow at hslots
  induction hslots with
  | nil => exact .nil
  | cons hslot _ ih =>
    refine .cons (fit_follows hslot (hfits _ (List.mem_cons_self ..))
      (hlayout _ (List.mem_cons_self ..))) (ih (fun slot hs => hfits slot ?_) fun place hp => ?_)
    · exact List.mem_cons_of_mem _ hs
    · exact hlayout place (List.mem_cons_of_mem _ hp)

end Slot

/-- Steads for the children of a node fit into the node. -/
theorem Node.steads_follow {n : Node} {steads : List (Slot Stead)}
    (follow : Slot.AllFollow Stead.family n.layout steads)
    (hfits : ∀ st ∈ steads.flatMap Slot.toList, st.Fits) :
    Slot.AllFollow Node.family n.layout (steads.map Slot.fit) :=
  Slot.fit_follow follow
    (fun slot hslot st hst => hfits st (List.mem_flatMap.mpr ⟨slot, hslot, hst⟩))
    fun _ hplace => Node.metadata_of_map_mem_layout hplace

end Literate
