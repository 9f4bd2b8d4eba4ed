import Literate.Proofs.Document.Stead
import Literate.Proofs.Store.Insertion
import Literate.Proofs.Store.Records

/-!
# What a store comes to

While replacements wait, the tree below a number is not yet what it will be: where a record waits, the
recorded nodes will stand, fitted to the family of the place, and nothing that is below will be left.
`Settles s r id st f` says that `st` is what will stand for the node at `id` once the records `r` are
put in, the footprint `f` being all entries that can be reached from `id`.

Main results:

* `Settles.of_frame`: what a number comes to depends on the entries and the records of its footprint.
* `Settles.of_stored`: a tree without records below it comes to itself.
* `Settles.exists_stored`: without any records, a number comes to the tree that is stored there.
* `Settles.fits`: whatever stands for a node is of its family.
* `Settles.inline_below`: all that is below a node which holds inlines only is inline.
-/

namespace Literate

-- ---------------------------------------------------------------------------
-- Nodes that stand for themselves
-- ---------------------------------------------------------------------------

/-- A node that stays. -/
def Stead.self (n : Node) : Stead :=
  ⟨n.family, [n]⟩

theorem Stead.self_fits (n : Node) : (Stead.self n).Fits := fun _ hm => by
  rw [List.mem_singleton.mp hm]
  rfl

namespace Slot

/-- A slot whose nodes all stay. -/
def selves : Slot Node → Slot Stead
  | .single n => .single (.self n)
  | .sequence ns => .sequence (ns.map .self)
  | .map entries => .map (entries.map fun (key, n) => (key, .self n))

@[simp]
theorem fit_selves (slot : Slot Node) : slot.selves.fit = slot := by
  cases slot with
  | single n => rfl
  | sequence ns => simp [selves, fit, Stead.self, List.flatMap_map]
  | map entries =>
    simp only [selves, fit, List.filterMap_map, Slot.map.injEq]
    exact List.filterMap_some

theorem selves_eq_replace (slot : Slot Node) : slot.selves = slot.replace .self := by
  cases slot <;> rfl

/-- Nodes that stay fit into their slot as they are. -/
theorem fit_replace_self {α : Type} {f : α → Stead} {g : α → Node} {slot : Slot α}
    (h : ∀ child ∈ slot.toList, f child = .self (g child)) : (slot.replace f).fit = slot.replace g := by
  have hself : slot.replace f = (slot.replace g).replace .self := by
    rw [replace_congr h, replace_replace]
  rw [hself, ← selves_eq_replace, fit_selves]

theorem selves_follow {slots : List (Slot Node)} {layout : List (SlotKind × Family)}
    (h : AllFollow Node.family layout slots) :
    AllFollow Stead.family layout (slots.map selves) := by
  rw [funext selves_eq_replace]
  exact replace_follow h fun _ => rfl

end Slot

theorem SlotAlong.selves {α : Type} {R : α → Stead → List Nat → Prop} {slot : Slot α}
    {kid : Slot Node} {f : List Nat} (h : SlotAlong (fun a n => R a (.self n)) slot kid f) :
    SlotAlong R slot kid.selves f := by
  cases h with
  | single child => exact .single child
  | sequence children => exact .sequence (children.map_right fun _ _ _ hc => hc)
  | map entries =>
    refine .map (entries.map_right fun _ _ _ hentry => ?_)
    cases hentry with
    | mk key value => exact .mk key value

/-- A run of nodes that all stay fits into a slot as it is. -/
theorem SlotAlong.fit_of_self {α : Type} {R : α → Node → List Nat → Prop} {slot : Slot α}
    {stead : Slot Stead} {f : List Nat}
    (h : SlotAlong (fun a st g => ∃ n, st = .self n ∧ R a n g) slot stead f) :
    SlotAlong R slot stead.fit f := by
  cases h with
  | single child =>
    obtain ⟨n, rfl, hn⟩ := child
    exact .single hn
  | sequence children =>
    refine .sequence ?_
    induction children with
    | nil => exact .nil
    | cons head _ ih =>
      obtain ⟨n, rfl, hn⟩ := head
      exact .cons hn ih
  | map entries =>
    refine .map ?_
    induction entries with
    | nil => exact .nil
    | cons head _ ih =>
      obtain ⟨key, n, rfl, hn⟩ := head
      exact .cons (.mk key hn) ih

namespace Store

-- ---------------------------------------------------------------------------
-- Changes that keep the kinds of nodes
-- ---------------------------------------------------------------------------

/-- Nodes keep their families and layouts, and no entry goes away. -/
structure KeepsKinds (s s' : Store) : Prop where
  size_le : s.size ≤ s'.size
  family_eq : ∀ x < s.size, s'.family x = s.family x
  layout_eq : ∀ x < s.size, (s'.node x).layout = (s.node x).layout

theorem KeepsKinds.refl (s : Store) : KeepsKinds s s :=
  ⟨Nat.le_refl _, fun _ _ => rfl, fun _ _ => rfl⟩

theorem KeepsKinds.trans {s s' s'' : Store} (h : KeepsKinds s s') (h' : KeepsKinds s' s'') :
    KeepsKinds s s'' where
  size_le := Nat.le_trans h.size_le h'.size_le
  family_eq x hx :=
    (h'.family_eq x (Nat.lt_of_lt_of_le hx h.size_le)).trans (h.family_eq x hx)
  layout_eq x hx :=
    (h'.layout_eq x (Nat.lt_of_lt_of_le hx h.size_le)).trans (h.layout_eq x hx)

theorem Extends.keepsKinds {s s' : Store} (h : Extends s s') : KeepsKinds s s' where
  size_le := h.size_le
  family_eq x hx := family_eq_of_entry (h.entry_eq x hx)
  layout_eq x hx := by rw [node_eq_of_entry (h.entry_eq x hx)]

theorem keepsKinds_setSlots (s : Store) (id : Nat) (slots : List (Slot NodeId)) :
    KeepsKinds s (s.setSlots id slots) where
  size_le := by simp
  family_eq x _ := family_setSlots
  layout_eq x _ := by rw [node_setSlots]

theorem keepsKinds_setNode {s : Store} {id : Nat} {n : Node} (hfamily : n.family = s.family id)
    (hlayout : n.layout = (s.node id).layout) : KeepsKinds s (s.setNode id n) where
  size_le := by simp
  family_eq x hx := by
    by_cases hid : x = id
    · subst hid
      rw [family, node_setNode_self hx, hfamily]
    · exact family_eq_of_entry (entry_setNode_of_ne hid)
  layout_eq x hx := by
    by_cases hid : x = id
    · subst hid
      rw [node_setNode_self hx, hlayout]
    · rw [node_eq_of_entry (entry_setNode_of_ne hid)]

theorem keepsKinds_setRoot (s : Store) (slots : List (Slot NodeId)) :
    KeepsKinds s (s.setRoot slots) :=
  ⟨Nat.le_refl _, fun _ _ => rfl, fun _ _ => rfl⟩

/-- Whether nodes can be recorded for a number: its node is no inline, but holds inlines. -/
structure Bears (s : Store) (id : Nat) : Prop where
  lt : id < s.size
  family_ne : s.family id ≠ .inline
  layout_eq : (s.node id).layout = [(.sequence, .inline)]

theorem Bears.of_keepsKinds {s s' : Store} {id : Nat} (h : Bears s id) (hkinds : KeepsKinds s s') :
    Bears s' id where
  lt := Nat.lt_of_lt_of_le h.lt hkinds.size_le
  family_ne := by
    rw [hkinds.family_eq id h.lt]
    exact h.family_ne
  layout_eq := by rw [hkinds.layout_eq id h.lt, h.layout_eq]

/-- A change of the store and of the records that leaves some entries alone. -/
structure Frame (s : Store) (r : Replacements) (s' : Store) (r' : Replacements) (f : List Nat) :
    Prop where
  size_le : s.size ≤ s'.size
  entry_eq : ∀ x ∈ f, s'.entry x = s.entry x
  find_eq : ∀ x ∈ f, r'.find? x = r.find? x

variable {s s' : Store} {r r' : Replacements} {id : Nat} {st : Stead} {f g : List Nat}

theorem Frame.subset (h : Frame s r s' r' f) (hg : g ⊆ f) : Frame s r s' r' g where
  size_le := h.size_le
  entry_eq x hx := h.entry_eq x (hg hx)
  find_eq x hx := h.find_eq x (hg hx)

theorem Frame.refl (s : Store) (r : Replacements) (f : List Nat) : Frame s r s r f :=
  ⟨Nat.le_refl _, fun _ _ => rfl, fun _ _ => rfl⟩

theorem Frame.trans {s'' : Store} {r'' : Replacements} (h : Frame s r s' r' f)
    (h' : Frame s' r' s'' r'' f) : Frame s r s'' r'' f where
  size_le := Nat.le_trans h.size_le h'.size_le
  entry_eq x hx := (h'.entry_eq x hx).trans (h.entry_eq x hx)
  find_eq x hx := (h'.find_eq x hx).trans (h.find_eq x hx)

theorem frame_setRoot {slots : List (Slot NodeId)} : Frame s r (s.setRoot slots) r f :=
  ⟨Nat.le_refl _, fun _ _ => rfl, fun _ _ => rfl⟩

theorem frame_setNode {n : Node} (h : id ∉ f) : Frame s r (s.setNode id n) r f where
  size_le := by simp
  entry_eq x hx := entry_setNode_of_ne fun heq => h (heq ▸ hx)
  find_eq _ _ := rfl

theorem frame_setSlots {slots : List (Slot NodeId)} (h : id ∉ f) :
    Frame s r (s.setSlots id slots) r f where
  size_le := by simp
  entry_eq x hx := entry_setSlots_of_ne fun heq => h (heq ▸ hx)
  find_eq _ _ := rfl

-- ---------------------------------------------------------------------------
-- Settling
-- ---------------------------------------------------------------------------

/-- What will stand for a node whose children come to `kids`. -/
def steadAt (s : Store) (r : Replacements) (id : Nat) (kids : List (Slot Node)) : Stead :=
  match r.find? id with
  | some nodes => ⟨s.family id, lift (s.family id) nodes⟩
  | none => ⟨s.family id, [(s.node id).fill kids]⟩

theorem steadAt_of_none {kids : List (Slot Node)} (h : r.find? id = none) :
    s.steadAt r id kids = ⟨s.family id, [(s.node id).fill kids]⟩ := by
  rw [steadAt, h]

theorem steadAt_of_some {kids : List (Slot Node)} {nodes : List Node} (h : r.find? id = some nodes) :
    s.steadAt r id kids = ⟨s.family id, lift (s.family id) nodes⟩ := by
  rw [steadAt, h]

@[simp]
theorem steadAt_family {kids : List (Slot Node)} : (s.steadAt r id kids).family = s.family id := by
  unfold steadAt
  split <;> rfl

/-- What will stand for the node at a number when all records are put in, and the entries that can be
reached from there. -/
inductive Settles (s : Store) (r : Replacements) : Nat → Stead → List Nat → Prop where
  | intro {id : Nat} {st : Stead} {below : List Nat} (steads : List (Slot Stead)) (lt : id < s.size)
      (follow : Slot.AllFollow Stead.family (s.node id).layout steads)
      (stead_eq : st = s.steadAt r id (steads.map Slot.fit))
      (children : Along (SlotAlong (Settles s r)) (s.slots id) steads below) :
      Settles s r id st (id :: below)

namespace Settles

/-- Induction on what can be reached. -/
@[elab_as_elim]
theorem induction {motive : ∀ (id : Nat) (st : Stead) (f : List Nat), Settles s r id st f → Prop}
    (step : ∀ (id : Nat) (st : Stead) (steads : List (Slot Stead)) (below : List Nat)
      (lt : id < s.size) (follow : Slot.AllFollow Stead.family (s.node id).layout steads)
      (stead_eq : st = s.steadAt r id (steads.map Slot.fit))
      (children : Along (SlotAlong (Settles s r)) (s.slots id) steads below),
      SlotsAlong (fun c d g => ∃ h : Settles s r c d g, motive c d g h) (s.slots id) steads below →
      motive id st (id :: below) (.intro steads lt follow stead_eq children))
    (h : Settles s r id st f) : motive id st f h :=
  @Settles.rec s r motive
    (fun slots kids g _ => SlotsAlong (fun c d g => ∃ h, motive c d g h) slots kids g)
    (fun slot kid g _ => SlotAlong (fun c d g => ∃ h, motive c d g h) slot kid g)
    (fun ids kids g _ => Along (fun c d g => ∃ h, motive c d g h) ids kids g)
    (fun ids kids g _ => Along (EntryAlong fun c d g => ∃ h, motive c d g h) ids kids g)
    (fun c d g _ => EntryAlong (fun c d g => ∃ h, motive c d g h) c d g)
    (fun steads lt follow stead_eq children ih => step _ _ steads _ lt follow stead_eq children ih)
    .nil (fun _ _ head tail => .cons head tail)
    (fun child ih => .single ⟨child, ih⟩) (fun _ children => .sequence children)
    (fun _ entries => .map entries)
    .nil (fun child _ ih tail => .cons ⟨child, ih⟩ tail)
    .nil (fun _ _ head tail => .cons head tail)
    (fun key child ih => .mk key ⟨child, ih⟩)
    id st f h

theorem id_mem (h : Settles s r id st f) : id ∈ f := by
  cases h
  exact List.mem_cons_self ..

theorem lt_of_mem (h : Settles s r id st f) {x : Nat} (hx : x ∈ f) : x < s.size := by
  induction h using Settles.induction with
  | step id st steads below lt _ _ _ ih =>
    rcases List.mem_cons.mp hx with rfl | hx
    · exact lt
    · obtain ⟨c, _, d, _, g, _, ⟨_, ih⟩, hxg⟩ := ih.toList.exists_of_mem_footprint hx
      exact ih hxg

theorem family_eq (h : Settles s r id st f) : s.family id = st.family := by
  cases h with
  | intro _ _ _ stead_eq _ => rw [stead_eq, steadAt_family]

theorem stead_eq_of_some (h : Settles s r id st f) {nodes : List Node}
    (hfind : r.find? id = some nodes) : st = ⟨s.family id, lift (s.family id) nodes⟩ := by
  cases h with
  | intro _ _ _ stead_eq _ => rw [stead_eq, steadAt_of_some hfind]

/-- What a number comes to depends on nothing but the entries and records of its footprint. -/
theorem of_frame (h : Settles s r id st f) (hframe : Frame s r s' r' f) : Settles s' r' id st f := by
  induction h using Settles.induction with
  | step id st steads below lt follow stead_eq _ ih =>
    have hid : s'.entry id = s.entry id := hframe.entry_eq id (List.mem_cons_self ..)
    have hfind : r'.find? id = r.find? id := hframe.find_eq id (List.mem_cons_self ..)
    refine .intro steads (Nat.lt_of_lt_of_le lt hframe.size_le) ?_ ?_ ?_
    · rwa [node_eq_of_entry hid]
    · rw [stead_eq, steadAt, steadAt, hfind, node_eq_of_entry hid, family_eq_of_entry hid]
    · rw [slots_eq_of_entry hid]
      exact ih.imp_of_sublist fun c d g hg ⟨_, hc⟩ =>
        hc (hframe.subset (List.subset_cons_of_subset _ hg.subset))

/-- The numbers in the slots of an entry follow the layout of its node. -/
theorem slots_follow (h : Settles s r id st f) :
    Slot.AllFollow s.family (s.node id).layout (s.slots id) := by
  cases h with
  | intro steads _ follow _ children =>
    exact SlotsAlong.follow_of_follow children (fun _ _ _ hc => hc.family_eq) follow

/-- Whatever stands for a node is of its family. -/
theorem fits (h : Settles s r id st f) : st.Fits := by
  cases h with
  | intro steads _ _ stead_eq _ =>
    intro n hn
    rw [stead_eq] at hn ⊢
    -- Either the node itself, with new children, or what is recorded for it, lifted to its family.
    rcases hfind : r.find? id with _ | nodes
    · rw [steadAt_of_none hfind] at hn ⊢
      rw [List.mem_singleton.mp hn]
      exact Node.family_fill ..
    · rw [steadAt_of_some hfind] at hn ⊢
      exact lift_family hn

/-- A tree without records comes to itself. -/
theorem of_stored {n : Node} (h : Stored s id n f) (hfind : ∀ x ∈ f, r.find? x = none) :
    Settles s r id (.self n) f := by
  induction h using Stored.induction with
  | step id n below lt shell_eq children ih =>
    have hid : r.find? id = none := hfind id (List.mem_cons_self ..)
    have hn : Stored s id n (id :: below) := .intro lt shell_eq children
    refine .intro (n.children.map Slot.selves) lt ?_ ?_ ?_
    · rw [hn.layout_eq]
      exact Slot.selves_follow (Node.children_follow n)
    · have hfit : n.children.map (Slot.fit ∘ Slot.selves) = n.children :=
        List.map_id'' Slot.fit_selves _
      rw [steadAt_of_none hid, hn.family_eq, List.map_map, hfit, Node.fill_eq_of_shell shell_eq]
      rfl
    · refine Along.map_right (R := SlotAlong fun c m g => Settles s r c (.self m) g) ?_
        fun _ _ _ hslot => hslot.selves
      exact ih.imp_of_sublist fun c m g hg ⟨_, hc⟩ =>
        hc fun x hx => hfind x (List.mem_cons_of_mem _ (hg.subset hx))

/-- Without any records a number comes to the tree that is stored there. -/
theorem exists_stored (h : Settles s .empty id st f) : ∃ n, st = .self n ∧ Stored s id n f := by
  induction h using Settles.induction with
  | step id st steads below lt follow stead_eq _ ih =>
    have hfits : Slot.AllFollow Node.family (s.node id).layout (steads.map Slot.fit) := by
      refine Node.steads_follow follow fun d hd => ?_
      obtain ⟨c, _, g, _, _, n, rfl, _⟩ := ih.toList.exists_of_mem_right hd
      exact Stead.self_fits n
    refine ⟨(s.node id).fill (steads.map Slot.fit), ?_, .intro lt (Node.shell_fill ..).symm ?_⟩
    · rw [stead_eq, steadAt_of_none Replacements.find?_empty, Stead.self, Node.family_fill, family]
    · rw [Node.children_fill hfits]
      exact Along.map_right ih fun _ _ _ hslot =>
        SlotAlong.fit_of_self (hslot.imp fun _ _ _ hc => hc.2)

-- ---------------------------------------------------------------------------
-- Below a node that holds inlines
-- ---------------------------------------------------------------------------

/-- All that is below a node which holds inlines only is inline. -/
theorem inline_below (h : Settles s r id st f)
    (hid : ∀ place ∈ (s.node id).layout, place.2 = .inline) {x : Nat} (hx : x ∈ f) :
    x = id ∨ s.family x = .inline := by
  induction h using Settles.induction with
  | step id st steads below lt follow _ children ih =>
    rcases List.mem_cons.mp hx with rfl | hx
    · exact .inl rfl
    · obtain ⟨c, _, d, hd, g, _, ⟨hc, hbelow⟩, hxg⟩ := ih.toList.exists_of_mem_footprint hx
      obtain ⟨slot, hslot, hd⟩ := List.mem_flatMap.mp hd
      obtain ⟨place, hp, hfollows⟩ := follow.mem hslot
      have hinline : s.family c = .inline := by
        rw [hc.family_eq, hfollows.2 d hd, hid place hp]
      rcases hbelow (fun place => Node.inline_of_mem_layout hinline) hxg with rfl | hx
      · exact .inr hinline
      · exact .inr hx

theorem inline_below_bears (h : Settles s r id st f) (hid : Bears s id) {x : Nat} (hx : x ∈ f) :
    x = id ∨ s.family x = .inline := by
  refine h.inline_below (fun place hplace => ?_) hx
  rw [hid.layout_eq, List.mem_singleton] at hplace
  rw [hplace]

end Settles

-- ---------------------------------------------------------------------------
-- Slots that settle
-- ---------------------------------------------------------------------------

section

variable {slots : List (Slot NodeId)} {steads : List (Slot Stead)}
  (h : SlotsAlong (Settles s r) slots steads f)

include h

theorem fits_of_settle : ∀ st ∈ steads.flatMap Slot.toList, st.Fits := by
  intro st hst
  obtain ⟨_, _, _, _, hid⟩ := h.toList.exists_of_mem_right hst
  exact hid.fits

/-- Without any records slots come to the trees that are stored there. -/
theorem stored_of_settle (hfind : ∀ x, r.find? x = none) :
    SlotsAlong (Stored s) slots (steads.map Slot.fit) f := by
  refine Along.map_right h fun slot stead g hslot => SlotAlong.fit_of_self (hslot.imp ?_)
  intro id st g hid
  refine Settles.exists_stored (hid.of_frame ⟨Nat.le_refl _, fun _ _ => rfl, fun x _ => ?_⟩)
  rw [hfind, Replacements.find?_empty]

end

end Store

end Literate
