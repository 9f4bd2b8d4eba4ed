import Literate.Proofs.Store.Settling

/-!
# What is put in the place of a node

A visit gives the numbers that stand in the place of a node afterwards. `Placed` says that together they
come to the stead of the node: either a single number that comes to it, or a number for each of its
nodes. Numbers are then fitted into the slot that the node was in, and the slot comes to what the steads
fit into (`Slot.fit`).

Main results:

* `collapse_settles`, `collapseEntry_settles`: a run of numbers in a single place or in a map comes to
  the run of their nodes in that place.
* `placed_insertAll`: nodes that are put in come to themselves.
-/

namespace Literate.Store

variable {s s' : Store} {r r' : Replacements} {family : Family} {st : Stead} {ids : List NodeId}
  {f f' : List Nat}

/-- Numbers that come to the stead of a node of a family. -/
structure Placed (family : Family) (s : Store) (r : Replacements) (ids : List NodeId) (st : Stead)
    (f : List Nat) : Prop where
  family_eq : st.family = family
  settles : ∃ sts, Along (Settles s r) ids sts f ∧
    (sts = [st] ∨ sts = st.nodes.map fun n => ⟨st.family, [n]⟩)

/-- A store that grew does not change what the old numbers come to. -/
theorem Extends.frame (h : Extends s s') (hf : ∀ x ∈ f, x < s.size) : Frame s r s' r f where
  size_le := h.size_le
  entry_eq x hx := h.entry_eq x (hf x hx)
  find_eq _ _ := rfl

theorem Settles.of_extends {id : Nat} (h : Settles s r id st f) (hs : Extends s s') :
    Settles s' r id st f :=
  h.of_frame (hs.frame fun _ hx => h.lt_of_mem hx)

theorem along_settles_lt {sts : List Stead} (h : Along (Settles s r) ids sts f) {x : Nat}
    (hx : x ∈ f) : x < s.size := by
  obtain ⟨_, _, _, _, g, _, hid, hxg⟩ := h.exists_of_mem_footprint hx
  exact hid.lt_of_mem hxg

namespace Placed

theorem of_settles {id : Nat} (h : Settles s r id st f) (hfamily : st.family = family) :
    Placed family s r [id] st f :=
  ⟨hfamily, [st], .singleton h, .inl rfl⟩

theorem of_frame (h : Placed family s r ids st f) (hframe : Frame s r s' r' f) :
    Placed family s' r' ids st f := by
  obtain ⟨hfamily, sts, halong, hsts⟩ := h
  refine ⟨hfamily, sts, halong.imp_of_sublist fun _ _ _ hg hid => ?_, hsts⟩
  exact hid.of_frame (hframe.subset hg.subset)

/-- The steads of the numbers are of the family, and have the nodes of the stead between them. -/
theorem exists_steads (h : Placed family s r ids st f) :
    ∃ sts, Along (Settles s r) ids sts f ∧ (∀ d ∈ sts, d.family = family) ∧
      sts.flatMap (·.nodes) = st.nodes := by
  obtain ⟨rfl, sts, halong, rfl | rfl⟩ := h
  · refine ⟨_, halong, fun d hd => ?_, ?_⟩
    · rw [List.mem_singleton.mp hd]
    · simp
  · refine ⟨_, halong, fun d hd => ?_, ?_⟩
    · obtain ⟨n, _, rfl⟩ := List.mem_map.mp hd
      rfl
    · simp [List.flatMap_map]

/-- A single number in the place of a node comes to the node's stead. -/
theorem settles_of_singleton {id : Nat} (h : Placed family s r [id] st f) : Settles s r id st f := by
  obtain ⟨sts, halong, hfamily, hnodes⟩ := h.exists_steads
  obtain ⟨d, rfl, hd⟩ := halong.of_singleton
  have hfamily_eq : d.family = st.family := by
    rw [hfamily d (List.mem_singleton_self d), h.family_eq]
  have hnodes_eq : d.nodes = st.nodes := by simpa using hnodes
  have heq : d = st := by
    obtain ⟨_, _⟩ := d
    obtain ⟨_, _⟩ := st
    simp_all
  rwa [heq] at hd

theorem length_eq (h : Placed family s r ids st f) (hids : ids.length ≠ 1) :
    ids.length = st.nodes.length := by
  obtain ⟨_, sts, halong, rfl | rfl⟩ := h
  · exact absurd halong.length_eq hids
  · rw [halong.length_eq, List.length_map]

end Placed

-- ---------------------------------------------------------------------------
-- Fitting numbers into slots
-- ---------------------------------------------------------------------------

/-- Whatever stands for a node is of the node's family. -/
theorem Placed.node_family (h : Placed family s r ids st f) {n : Node} (hn : n ∈ st.nodes) :
    n.family = family := by
  obtain ⟨sts, halong, hfamily, hnodes⟩ := h.exists_steads
  rw [← hnodes] at hn
  obtain ⟨d, hd, hn⟩ := List.mem_flatMap.mp hn
  obtain ⟨_, _, _, _, hid⟩ := halong.exists_of_mem_right hd
  rw [hid.fits n hn, hfamily d hd]

/-- In the store `s'`, which is `s` with some entries added, the number `id` comes to `st`. -/
structure Gathered (s s' : Store) (r : Replacements) (id : Nat) (st : Stead) (f f' : List Nat) :
    Prop where
  grown : Extends s s'
  settles : Settles s' r id st f'
  subset : f ⊆ f'
  nodup : f'.Nodup
  within : ∀ x ∈ f', x ∈ f ∨ s.size ≤ x ∧ x < s'.size

theorem Gathered.refl {id : Nat} (h : Settles s r id st f) (hf : f.Nodup) :
    Gathered s s r id st f f where
  grown := .refl s
  settles := h
  subset := List.Subset.refl f
  nodup := hf
  within _ hx := .inl hx

/-- A run of nodes of one family in a container. -/
def wrapped (family : Family) (nodes : List Node) : Stead :=
  ⟨family, [(Node.container family).fill [.sequence nodes]]⟩

theorem collapse_of_length_ne_one (h : ids.length ≠ 1) :
    s.collapse family ids =
      (s.size, (s.insert (Node.container family)).2.setSlots s.size [.sequence ids]) := by
  unfold collapse
  split
  · exact absurd rfl h
  · show ((s.insert _).1, (s.insert _).2.setSlots (s.insert _).1 _) = _
    rw [insert_id]

/-- A new container holds the numbers that are put into it. -/
theorem wrap_settles (h : Placed family s r ids st f) (hf : f.Nodup) (hfree : r.find? s.size = none) :
    Gathered s ((s.insert (Node.container family)).2.setSlots s.size [.sequence ids]) r s.size
      (wrapped family st.nodes) f (s.size :: f) := by
  obtain ⟨sts, halong, hfamily, hnodes⟩ := h.exists_steads
  have hstored := insert_stored (Node.container family) s
  rw [insert_id] at hstored
  set inserted := (s.insert (Node.container family)).2
  have hlt : s.size < inserted.size := hstored.lt_of_mem hstored.id_mem
  have hgrown : Extends s (inserted.setSlots s.size [.sequence ids]) :=
    (insert_extends _ s).setSlots (Nat.le_refl _)
  refine ⟨hgrown, ?_, List.subset_cons_self .., List.nodup_cons.mpr ⟨fun hmem => ?_, hf⟩, ?_⟩
  · -- The container has one slot, and that holds the numbers.
    refine .intro [.sequence sts] (by simpa using hlt) ?_ ?_ ?_
    · rw [node_setSlots, hstored.layout_eq, Node.layout_container]
      exact .cons ⟨rfl, hfamily⟩ .nil
    · have hkids : Slot.AllFollow Node.family (inserted.node s.size).layout [.sequence st.nodes] := by
        rw [hstored.layout_eq]
        exact Node.container_follow fun n hn => h.node_family hn
      rw [steadAt_of_none hfree, family_setSlots, node_setSlots, hstored.family_eq,
        Node.family_container]
      show wrapped family st.nodes = ⟨family, [(inserted.node s.size).fill [.sequence _]]⟩
      rw [hnodes, Node.fill_congr hstored.shell_eq hkids, wrapped]
    · rw [slots_setSlots_self hlt]
      exact .singleton (.sequence (halong.imp fun _ _ _ hid => hid.of_extends hgrown))
  · exact Nat.lt_irrefl _ (along_settles_lt halong hmem)
  · intro x hx
    rcases List.mem_cons.mp hx with rfl | hx
    · exact .inr ⟨Nat.le_refl _, by simpa using hlt⟩
    · exact .inl hx

/-- A run of numbers in a single place comes to what its nodes come to, or to their container. -/
theorem collapse_gathered (h : Placed family s r ids st f) (hf : f.Nodup)
    (hfree : r.find? s.size = none) :
    ∃ st' f', Gathered s (s.collapse family ids).2 r (s.collapse family ids).1 st' f f' ∧
      st'.family = family ∧
      (st'.nodes = st.nodes ∨
        st'.nodes = [Node.collapse family st.nodes] ∧ st.nodes.length = ids.length) := by
  by_cases hone : ids.length = 1
  · obtain ⟨id, rfl⟩ := List.length_eq_one_iff.mp hone
    exact ⟨st, f, .refl h.settles_of_singleton hf, h.family_eq, .inl rfl⟩
  · have hlength := h.length_eq hone
    have hnodes : st.nodes.length ≠ 1 := by rwa [← hlength]
    rw [collapse_of_length_ne_one hone]
    refine ⟨_, _, wrap_settles h hf hfree, rfl, .inr ⟨?_, hlength.symm⟩⟩
    rw [wrapped, Node.collapse_of_length_ne_one hnodes]

/-- A run of numbers in a single place comes to the run of their nodes in that place. -/
theorem collapse_settles (h : Placed family s r ids st f) (hf : f.Nodup)
    (hfree : r.find? s.size = none) :
    ∃ st' f', Gathered s (s.collapse family ids).2 r (s.collapse family ids).1 st' f f' ∧
      st'.family = family ∧ Node.collapse family st'.nodes = Node.collapse family st.nodes := by
  obtain ⟨st', f', hgathered, hfamily, hnodes | ⟨hnodes, -⟩⟩ := collapse_gathered h hf hfree
  · exact ⟨st', f', hgathered, hfamily, by rw [hnodes]⟩
  · exact ⟨st', f', hgathered, hfamily, by rw [hnodes, Node.collapse_singleton]⟩

/-- A run of numbers in a map comes to the run of their nodes there, in particular to nothing if it is
empty. -/
theorem collapseEntry_settles (key : String) (h : Placed .metadata s r ids st f) (hf : f.Nodup)
    (hfree : r.find? s.size = none) :
    (s.collapseEntry ids = (none, s) ∧ f = [] ∧ Node.collapseEntry key st.nodes = none) ∨
      ∃ id s' st' f', s.collapseEntry ids = (some id, s') ∧ Gathered s s' r id st' f f' ∧
        st'.family = .metadata ∧
        Node.collapseEntry key st'.nodes = Node.collapseEntry key st.nodes := by
  cases ids with
  | nil =>
    obtain ⟨sts, halong, _, hnodes⟩ := h.exists_steads
    cases halong
    refine .inl ⟨rfl, rfl, ?_⟩
    rw [← hnodes]
    rfl
  | cons id ids =>
    right
    obtain ⟨st', f', hgathered, hfamily, hnodes | ⟨hnodes, hlength⟩⟩ := collapse_gathered h hf hfree
    · exact ⟨_, _, st', f', rfl, hgathered, hfamily, by rw [hnodes]⟩
    · refine ⟨_, _, st', f', rfl, hgathered, hfamily, ?_⟩
      have hempty : st.nodes.isEmpty = false := by
        rw [List.isEmpty_eq_false_iff, ← List.length_pos_iff, hlength]
        exact Nat.succ_pos _
      rw [hnodes, Node.collapseEntry_singleton, Node.collapseEntry, hempty]
      rfl

-- ---------------------------------------------------------------------------
-- Slots
-- ---------------------------------------------------------------------------

/-- What an entry of a map becomes: it goes away if nothing stands for its value. -/
inductive EntryPlaced (s : Store) (r : Replacements) :
    Option (String × NodeId) → String × Stead → List Nat → Prop where
  | gone {key : String} {st : Stead} (nodes_eq : Node.collapseEntry key st.nodes = none) :
      EntryPlaced s r none (key, st) []
  | stays {key : String} {id : Nat} {st st' : Stead} {f : List Nat} (settles : Settles s r id st' f)
      (family_eq : st'.family = .metadata)
      (nodes_eq : Node.collapseEntry key st'.nodes = Node.collapseEntry key st.nodes) :
      EntryPlaced s r (some (key, id)) (key, st) f

/-- A slot whose numbers come to what fits into a place as some steads do. -/
def SlotPlaced (place : SlotKind × Family) (s : Store) (r : Replacements) (slot : Slot NodeId)
    (stead : Slot Stead) (f : List Nat) : Prop :=
  ∃ settled, SlotAlong (Settles s r) slot settled f ∧ settled.Follows Stead.family place ∧
    settled.fit = stead.fit

/-- Slots whose numbers come to what fits into a layout as some steads do. -/
def SlotsPlaced (layout : List (SlotKind × Family)) (s : Store) (r : Replacements)
    (slots : List (Slot NodeId)) (steads : List (Slot Stead)) (f : List Nat) : Prop :=
  ∃ settled, SlotsAlong (Settles s r) slots settled f ∧
    Slot.AllFollow Stead.family layout settled ∧ settled.map Slot.fit = steads.map Slot.fit

theorem EntryPlaced.of_frame {entry : Option (String × NodeId)} {stead : String × Stead}
    (h : EntryPlaced s r entry stead f) (hframe : Frame s r s' r' f) :
    EntryPlaced s' r' entry stead f := by
  cases h with
  | gone nodes_eq => exact .gone nodes_eq
  | stays settles family_eq nodes_eq =>
    exact .stays (settles.of_frame hframe) family_eq nodes_eq

theorem SlotPlaced.of_frame {place : SlotKind × Family} {slot : Slot NodeId} {stead : Slot Stead}
    (h : SlotPlaced place s r slot stead f) (hframe : Frame s r s' r' f) :
    SlotPlaced place s' r' slot stead f := by
  obtain ⟨settled, halong, hrest⟩ := h
  refine ⟨settled, halong.imp_of_sublist fun _ _ _ hg hid => ?_, hrest⟩
  exact hid.of_frame (hframe.subset hg.subset)

theorem SlotsPlaced.of_frame {layout : List (SlotKind × Family)} {slots : List (Slot NodeId)}
    {steads : List (Slot Stead)} (h : SlotsPlaced layout s r slots steads f)
    (hframe : Frame s r s' r' f) : SlotsPlaced layout s' r' slots steads f := by
  obtain ⟨settled, halong, hrest⟩ := h
  refine ⟨settled, SlotsAlong.imp_of_sublist halong fun _ _ _ hg hid => ?_, hrest⟩
  exact hid.of_frame (hframe.subset hg.subset)

/-- An entry comes to what its slots come to. -/
theorem settles_of_placed {id : Nat} {steads : List (Slot Stead)} (hid : id < s.size)
    (h : SlotsPlaced (s.node id).layout s r (s.slots id) steads f) :
    Settles s r id (s.steadAt r id (steads.map Slot.fit)) (id :: f) := by
  obtain ⟨settled, halong, hfollow, hfit⟩ := h
  refine .intro settled hid hfollow ?_ halong
  rw [hfit]

theorem SlotsPlaced.follow {layout : List (SlotKind × Family)} {slots : List (Slot NodeId)}
    {steads : List (Slot Stead)} (h : SlotsPlaced layout s r slots steads f)
    (hlayout : ∀ place ∈ layout, place.1 = .map → place.2 = .metadata) :
    Slot.AllFollow Node.family layout (steads.map Slot.fit) := by
  obtain ⟨settled, halong, hfollow, hfit⟩ := h
  rw [← hfit]
  refine Slot.fit_follow hfollow (fun slot hslot st hst => ?_) hlayout
  exact fits_of_settle halong st (List.mem_flatMap.mpr ⟨slot, hslot, hst⟩)

theorem slotsPlaced_nil : SlotsPlaced [] s r [] [] [] :=
  ⟨[], .nil, .nil, rfl⟩

theorem SlotPlaced.cons {place : SlotKind × Family} {layout : List (SlotKind × Family)}
    {slot : Slot NodeId} {slots : List (Slot NodeId)} {stead : Slot Stead}
    {steads : List (Slot Stead)} (h : SlotPlaced place s r slot stead f)
    (h' : SlotsPlaced layout s r slots steads f') :
    SlotsPlaced (place :: layout) s r (slot :: slots) (stead :: steads) (f ++ f') := by
  obtain ⟨head, halong, hfollows, hfit⟩ := h
  obtain ⟨tail, halong', hfollow, hfit'⟩ := h'
  refine ⟨head :: tail, .cons halong halong', .cons hfollows hfollow, ?_⟩
  rw [List.map_cons, List.map_cons, hfit, hfit']

/-- A sequence takes all numbers that stand in the places of its members. -/
theorem slotPlaced_sequence {runs : List (List NodeId)} {sts : List Stead}
    (h : Along (Placed family s r) runs sts f) :
    SlotPlaced (.sequence, family) s r (.sequence runs.flatten) (.sequence sts) f := by
  suffices ∃ settled, Along (Settles s r) runs.flatten settled f ∧
      (∀ d ∈ settled, d.family = family) ∧
      settled.flatMap (·.nodes) = sts.flatMap (·.nodes) by
    obtain ⟨settled, halong, hfamily, hnodes⟩ := this
    refine ⟨.sequence settled, .sequence halong, ⟨rfl, hfamily⟩, ?_⟩
    rw [Slot.fit, Slot.fit, hnodes]
  induction h with
  | nil => exact ⟨[], .nil, by simp, rfl⟩
  | cons head _ ih =>
    obtain ⟨ds, halong, hfamily, hnodes⟩ := head.exists_steads
    obtain ⟨rest, halong', hfamily', hnodes'⟩ := ih
    refine ⟨ds ++ rest, halong.append halong', fun d hd => ?_, ?_⟩
    · exact (List.mem_append.mp hd).elim (hfamily d) (hfamily' d)
    · rw [List.flatMap_append, List.flatMap_cons, hnodes, hnodes']

/-- A map keeps the entries for whose values something stands. -/
theorem slotPlaced_map {kept : List (Option (String × NodeId))} {entries : List (String × Stead)}
    (h : Along (EntryPlaced s r) kept entries f) :
    SlotPlaced (.map, .metadata) s r (.map (kept.filterMap id)) (.map entries) f := by
  suffices ∃ settled : List (String × Stead),
      Along (EntryAlong (Settles s r)) (kept.filterMap id) settled f ∧
      (∀ d ∈ settled.map (·.2), d.family = .metadata) ∧
      (Slot.map settled).fit = (Slot.map entries).fit by
    obtain ⟨settled, halong, hfamily, hfit⟩ := this
    exact ⟨.map settled, .map halong, ⟨rfl, hfamily⟩, hfit⟩
  induction h with
  | nil => exact ⟨[], .nil, by simp, rfl⟩
  | cons head _ ih =>
    obtain ⟨rest, halong, hfamily, hfit⟩ := ih
    simp only [Slot.fit, Slot.map.injEq] at hfit
    cases head with
    | gone nodes_eq =>
      refine ⟨rest, halong, hfamily, ?_⟩
      simp only [Slot.fit, List.filterMap_cons, nodes_eq, hfit]
    | @stays key id st st' g settles family_eq nodes_eq =>
      refine ⟨(key, st') :: rest, .cons (.mk key settles) halong, fun d hd => ?_, ?_⟩
      · rcases List.mem_cons.mp hd with rfl | hd
        · exact family_eq
        · exact hfamily d hd
      · simp only [Slot.fit, List.filterMap_cons, nodes_eq, hfit]

/-- A single place takes a number, or a container of several. -/
theorem slotPlaced_single {id : Nat} {st st' : Stead} (h : Settles s r id st' f)
    (hfamily' : st'.family = family) (hfamily : st.family = family)
    (hnodes : Node.collapse family st'.nodes = Node.collapse family st.nodes) :
    SlotPlaced (.single, family) s r (.single id) (.single st) f := by
  refine ⟨.single st', .single h, ⟨rfl, fun d hd => ?_⟩, ?_⟩
  · rw [List.mem_singleton.mp hd]
    exact hfamily'
  · rw [Slot.fit, Slot.fit, hfamily', hfamily, hnodes]

-- ---------------------------------------------------------------------------
-- New nodes
-- ---------------------------------------------------------------------------

/-- Nodes that are put in come to themselves. -/
theorem placed_insertAll {nodes : List Node} (hfamily : ∀ n ∈ nodes, n.family = family)
    (hfree : ∀ x : Nat, s.size ≤ x → r.find? x = none) :
    Extends s (s.insertAll nodes).2 ∧
      (s.insertAll nodes).2.size = s.size + Node.sizeOfAll nodes ∧
      Placed family (s.insertAll nodes).2 r (s.insertAll nodes).1 ⟨family, nodes⟩
        (List.range' s.size (Node.sizeOfAll nodes)) := by
  have hfills := @insertAll_fills nodes (fun n _ s => insert_fills n s) s
  refine ⟨hfills.grows.toExtends, hfills.grows.size_eq, rfl, nodes.map Stead.self, ?_, .inr ?_⟩
  · have hself : Along (fun id n g => Settles (s.insertAll nodes).2 r id (.self n) g)
        (s.insertAll nodes).1 nodes (List.range' s.size (Node.sizeOfAll nodes)) :=
      hfills.related.imp_of_sublist fun id n g hg hn =>
        .of_stored hn fun x hx => hfree x (List.mem_range'_1.mp (hg.subset hx)).1
    exact hself.map_right fun _ _ _ hn => hn
  · exact List.map_congr_left fun n hn => by rw [Stead.self, hfamily n hn]

end Literate.Store
