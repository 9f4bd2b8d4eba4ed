import Literate.Document.Lift
import Literate.Document.Store
import Literate.Proofs.Document.Attaching

/-!
# The layout of a node

The kind of a node says which slots it has: how each is organised, and which family it holds
(`Node.layout`). Children are put into a node one by one and may be refused there, which makes the
node's own code long; what it comes to is short. Children that follow the layout always get in, and
what comes out of a node follows its layout.

Main results:

* `children_follow`: the children of a node follow its layout.
* `attach_fill`: children that follow the layout are accepted; the node that they make (`fill`) has
  exactly these children, and the shell of the old node.
* `fill_eq_of_shell`: a node is its shell, filled with its children.
* `attach_iff_follow`: children get in exactly if they begin with some that follow the layout, and these come
  out again.
* `Node.induction`: what a node has if its children have it, every node has.
-/

namespace Literate

namespace Slot

variable {α β γ : Type}

/-- How a slot is organised. -/
def kind : Slot α → SlotKind
  | .single _ => .single
  | .sequence _ => .sequence
  | .map _ => .map

/-- Whether a slot is of a kind and holds members of a family only. -/
def Follows (family : α → Family) (place : SlotKind × Family) (slot : Slot α) : Prop :=
  slot.kind = place.1 ∧ ∀ child ∈ slot.toList, family child = place.2

/-- Whether slots follow a layout. -/
def AllFollow (family : α → Family) (layout : List (SlotKind × Family)) (slots : List (Slot α)) :
    Prop :=
  List.Forall₂ (Follows family) layout slots

theorem AllFollow.mem {family : α → Family} {layout : List (SlotKind × Family)}
    {slots : List (Slot α)} (h : AllFollow family layout slots) {slot : Slot α} (hs : slot ∈ slots) :
    ∃ place ∈ layout, slot.Follows family place := by
  unfold AllFollow at h
  induction h with
  | nil => simp at hs
  | cons hplace _ ih =>
    rcases List.mem_cons.mp hs with rfl | hs
    · exact ⟨_, List.mem_cons_self .., hplace⟩
    · obtain ⟨place, hp, hf⟩ := ih hs
      exact ⟨place, List.mem_cons_of_mem _ hp, hf⟩

/-- What a slot becomes when every child is replaced. -/
def replace (f : α → β) : Slot α → Slot β
  | .single child => .single (f child)
  | .sequence children => .sequence (children.map f)
  | .map entries => .map (entries.map fun entry => (entry.1, f entry.2))

theorem toList_replace (f : α → β) (slot : Slot α) : (slot.replace f).toList = slot.toList.map f := by
  cases slot with
  | single child => rfl
  | sequence children => rfl
  | map entries => simp [replace, toList]

theorem kind_replace (f : α → β) (slot : Slot α) : (slot.replace f).kind = slot.kind := by
  cases slot <;> rfl

theorem replace_replace (f : α → β) (g : β → γ) (slot : Slot α) :
    (slot.replace f).replace g = slot.replace fun child => g (f child) := by
  cases slot <;> simp [replace]

theorem replace_congr {f g : α → β} {slot : Slot α} (h : ∀ child ∈ slot.toList, f child = g child) :
    slot.replace f = slot.replace g := by
  cases slot with
  | single child => rw [replace, replace, h child (List.mem_singleton_self child)]
  | sequence children => exact congrArg sequence (List.map_congr_left h)
  | map entries =>
    refine congrArg map (List.map_congr_left fun entry hentry => ?_)
    rw [h entry.2 (List.mem_map_of_mem hentry)]

/-- Children of the same families follow the same layout. -/
theorem replace_follow {family : α → Family} {family' : β → Family} {f : α → β}
    {layout : List (SlotKind × Family)} {slots : List (Slot α)} (h : AllFollow family layout slots)
    (hfamily : ∀ child, family' (f child) = family child) :
    AllFollow family' layout (slots.map (replace f)) := by
  unfold AllFollow at h
  induction h with
  | nil => exact .nil
  | cons hslot _ ih =>
    refine .cons ⟨(kind_replace ..).trans hslot.1, fun child hchild => ?_⟩ ih
    rw [toList_replace] at hchild
    obtain ⟨old, hold, rfl⟩ := List.mem_map.mp hchild
    rw [hfamily, hslot.2 old hold]

theorem mapM_pure_comp {m : Type → Type} [Monad m] [LawfulMonad m] (f : α → β) (slot : Slot α) :
    slot.mapM (fun child => (pure (f child) : m β)) = pure (slot.replace f) := by
  cases slot <;> simp [Slot.mapM, replace]

/-- Slots whose children are replaced without effects. -/
theorem mapM_mapM_pure_comp {m : Type → Type} [Monad m] [LawfulMonad m] (f : α → β)
    (slots : List (Slot α)) :
    slots.mapM (Slot.mapM fun child => (pure (f child) : m β)) = pure (slots.map (replace f)) := by
  have hslot : (Slot.mapM fun child => (pure (f child) : m β)) = fun slot => pure (slot.replace f) :=
    funext (mapM_pure_comp f)
  rw [hslot, List.mapM_pure]

/-- Slots whose children are left alone. -/
theorem mapM_mapM_pure {m : Type → Type} [Monad m] [LawfulMonad m] (slots : List (Slot α)) :
    slots.mapM (Slot.mapM (pure : α → m α)) = pure slots := by
  have hself : replace (fun child : α => child) = id := by
    funext slot
    cases slot <;> simp [replace]
  have h := mapM_mapM_pure_comp (m := m) (fun child => child) slots
  rwa [hself, List.map_id] at h

end Slot

namespace Node

-- ---------------------------------------------------------------------------
-- Layouts
-- ---------------------------------------------------------------------------

def layoutOfBlock : Block → List (SlotKind × Family)
  | .plain _ | .paragraph _ | .tableCell _ | .heading .. => [(.sequence, .inline)]
  | .blockQuote _ | .listItem _ | .tableRow _ | .div .. | .orderedList .. | .bulletList _ =>
    [(.sequence, .block)]
  | .table .. => [(.single, .block), (.sequence, .block)]
  | .codeBlock .. | .html _ | .rule => []

def layoutOfInline : Inline → List (SlotKind × Family)
  | .emphasis _ | .strong _ | .strikethrough _ | .link .. | .image .. | .span .. =>
    [(.sequence, .inline)]
  | .text _ | .code .. | .math .. | .html _ | .softBreak | .hardBreak => []

def layoutOfMetadata : Metadata → List (SlotKind × Family)
  | .inlines _ => [(.sequence, .inline)]
  | .blocks _ => [(.sequence, .block)]
  | .list _ => [(.sequence, .metadata)]
  | .map _ => [(.map, .metadata)]
  | .bool _ | .str _ => []

/-- The slots that a node of this kind has: how each is organised, and what it holds. -/
def layout : Node → List (SlotKind × Family)
  | block b => layoutOfBlock b
  | inline i => layoutOfInline i
  | metadata m => layoutOfMetadata m

@[simp]
theorem layout_shell (n : Node) : n.shell.layout = n.layout := by
  rcases n with b | i | m
  · cases b <;> rfl
  · cases i <;> rfl
  · cases m <;> rfl

@[simp]
theorem family_shell (n : Node) : n.shell.family = n.family := by
  rcases n with b | i | m <;> rfl

@[simp]
theorem shell_shell (n : Node) : n.shell.shell = n.shell := by
  rcases n with b | i | m
  · cases b <;> rfl
  · cases i <;> rfl
  · cases m <;> rfl

theorem follows_inlines (is : List Inline) :
    (Slot.sequence (is.map inline)).Follows family (.sequence, .inline) := by
  refine ⟨rfl, fun child hc => ?_⟩
  obtain ⟨i, -, rfl⟩ := List.mem_map.mp hc
  rfl

theorem follows_blocks (bs : List Block) :
    (Slot.sequence (bs.map block)).Follows family (.sequence, .block) := by
  refine ⟨rfl, fun child hc => ?_⟩
  obtain ⟨b, -, rfl⟩ := List.mem_map.mp hc
  rfl

theorem follows_list (ms : List Metadata) :
    (Slot.sequence (ms.map metadata)).Follows family (.sequence, .metadata) := by
  refine ⟨rfl, fun child hc => ?_⟩
  obtain ⟨m, -, rfl⟩ := List.mem_map.mp hc
  rfl

theorem follows_entries (entries : List (String × Metadata)) :
    (Slot.map (entries.map fun (key, value) => (key, metadata value))).Follows family
      (.map, .metadata) := by
  refine ⟨rfl, fun child hc => ?_⟩
  simp only [Slot.toList, List.map_map, List.mem_map] at hc
  obtain ⟨entry, -, rfl⟩ := hc
  rfl

/-- The children of a node follow its layout. -/
theorem children_follow (n : Node) : Slot.AllFollow family n.layout n.children := by
  rcases n with b | i | m
  · cases b with
    | table alignments head rows =>
      refine .cons ⟨rfl, ?_⟩ (.cons (follows_blocks _) .nil)
      intro child hc
      rw [List.mem_singleton.mp hc]
      rfl
    | codeBlock | html | rule => exact .nil
    | plain | paragraph | heading | tableCell => exact .cons (follows_inlines _) .nil
    | blockQuote | orderedList | bulletList | listItem | tableRow | div =>
      exact .cons (follows_blocks _) .nil
  · cases i with
    | text | code | math | html | softBreak | hardBreak => exact .nil
    | emphasis | strong | strikethrough | link | image | span =>
      exact .cons (follows_inlines _) .nil
  · cases m with
    | bool | str => exact .nil
    | inlines => exact .cons (follows_inlines _) .nil
    | blocks => exact .cons (follows_blocks _) .nil
    | list => exact .cons (follows_list _) .nil
    | map => exact .cons (follows_entries _) .nil

/-- An inline holds inlines only. -/
theorem inline_of_mem_layout {n : Node} (hn : n.family = .inline) {place : SlotKind × Family}
    (hp : place ∈ n.layout) : place.2 = .inline := by
  rcases n with b | i | m
  · cases hn
  · cases i <;> simp_all [layout, layoutOfInline]
  · cases hn

/-- A node that is no inline but holds one has a single sequence of inlines. -/
theorem layout_of_holds_inline {n : Node} (hn : n.family ≠ .inline) {place : SlotKind × Family}
    (hp : place ∈ n.layout) (hplace : place.2 = .inline) : n.layout = [(.sequence, .inline)] := by
  rcases n with b | i | m
  · cases b <;> simp_all [layout, layoutOfBlock]
    rcases hp with rfl | rfl <;> cases hplace
  · exact absurd rfl hn
  · cases m <;> simp_all [layout, layoutOfMetadata]

-- ---------------------------------------------------------------------------
-- Filling shells
-- ---------------------------------------------------------------------------

/-- A node with other children; with those that it had where the new ones do not follow its layout. -/
def fill (n : Node) (kids : List (Slot Node)) : Node :=
  match n.attach kids with
  | .ok filled => filled
  | .error failure => failure.node

/-- The children of a node with the same shell get in, and make that node. -/
theorem attach_eq_ok_of_shell {n m : Node} (h : n.shell = m.shell) :
    n.attach m.children = .ok m :=
  attach_eq_ok_iff.mpr ⟨h.symm, [], (List.append_nil _).symm⟩

/-- Putting its children into the shell of a node gives the node. -/
theorem attach_children (n : Node) : n.shell.attach n.children = .ok n :=
  attach_eq_ok_of_shell (shell_shell n)

instance : CanLift Node Inline inline fun n => n.family = .inline where
  prf
    | inline i, _ => ⟨i, rfl⟩

instance : CanLift Node Block block fun n => n.family = .block where
  prf
    | block b, _ => ⟨b, rfl⟩

instance : CanLift Node Metadata metadata fun n => n.family = .metadata where
  prf
    | metadata m, _ => ⟨m, rfl⟩

/-- A layout of one place is followed by one slot. -/
theorem exists_slot {place : SlotKind × Family} {kids : List (Slot Node)}
    (h : Slot.AllFollow family [place] kids) : ∃ slot, slot.Follows family place ∧ kids = [slot] := by
  obtain ⟨slot, rest, hslot, hrest, rfl⟩ := List.forall₂_cons_left_iff.mp h
  rw [List.forall₂_nil_left_iff.mp hrest]
  exact ⟨slot, hslot, rfl⟩

theorem exists_sequence {f : Family} {slot : Slot Node} (h : slot.Follows family (.sequence, f)) :
    ∃ ns : List Node, (∀ n ∈ ns, n.family = f) ∧ slot = .sequence ns := by
  obtain ⟨hkind, hall⟩ := h
  cases slot with
  | single _ => cases hkind
  | map _ => cases hkind
  | sequence ns => exact ⟨ns, hall, rfl⟩

theorem exists_inlines {kids : List (Slot Node)}
    (h : Slot.AllFollow family [(.sequence, .inline)] kids) :
    ∃ is : List Inline, kids = [.sequence (is.map inline)] := by
  obtain ⟨slot, hslot, rfl⟩ := exists_slot h
  obtain ⟨ns, hns, rfl⟩ := exists_sequence hslot
  lift ns to List Inline using hns
  exact ⟨ns, rfl⟩

theorem exists_blocks {kids : List (Slot Node)}
    (h : Slot.AllFollow family [(.sequence, .block)] kids) :
    ∃ bs : List Block, kids = [.sequence (bs.map block)] := by
  obtain ⟨slot, hslot, rfl⟩ := exists_slot h
  obtain ⟨ns, hns, rfl⟩ := exists_sequence hslot
  lift ns to List Block using hns
  exact ⟨ns, rfl⟩

theorem exists_list {kids : List (Slot Node)}
    (h : Slot.AllFollow family [(.sequence, .metadata)] kids) :
    ∃ ms : List Metadata, kids = [.sequence (ms.map metadata)] := by
  obtain ⟨slot, hslot, rfl⟩ := exists_slot h
  obtain ⟨ns, hns, rfl⟩ := exists_sequence hslot
  lift ns to List Metadata using hns
  exact ⟨ns, rfl⟩

theorem exists_entries {slot : Slot Node} (h : slot.Follows family (.map, .metadata)) :
    ∃ entries : List (String × Metadata),
      slot = .map (entries.map fun (key, value) => (key, metadata value)) := by
  obtain ⟨hkind, hall⟩ := h
  cases slot with
  | single _ => cases hkind
  | sequence _ => cases hkind
  | map entries =>
    induction entries with
    | nil => exact ⟨[], rfl⟩
    | cons entry entries ih =>
      obtain ⟨rest, hrest⟩ := ih rfl fun child hc => hall child (List.mem_cons_of_mem _ hc)
      have hentry : entry.2.family = .metadata := hall entry.2 (List.mem_cons_self ..)
      obtain ⟨key, n⟩ := entry
      lift n to Metadata using hentry
      exact ⟨(key, n) :: rest, by simpa using hrest⟩

theorem exists_table {kids : List (Slot Node)}
    (h : Slot.AllFollow family [(.single, .block), (.sequence, .block)] kids) :
    ∃ (head : Block) (rows : List Block),
      kids = [.single (block head), .sequence (rows.map block)] := by
  obtain ⟨slot, rest, hslot, hrest, rfl⟩ := List.forall₂_cons_left_iff.mp h
  obtain ⟨rows, rfl⟩ := exists_blocks hrest
  obtain ⟨hkind, hall⟩ := hslot
  cases slot with
  | sequence _ => cases hkind
  | map _ => cases hkind
  | single n =>
    have hn : n.family = .block := hall n (List.mem_singleton_self n)
    lift n to Block using hn
    exact ⟨n, rows, rfl⟩

theorem layout_eq_of_shell {n m : Node} (h : n.shell = m.shell) : n.layout = m.layout := by
  rw [← layout_shell, h, layout_shell]

theorem length_children (n : Node) : n.children.length = n.layout.length :=
  (children_follow n).length_eq.symm

/-- Children that follow the layout of a node get in. The cases are those of the layout; within a case the
kinds differ in nothing but their names. -/
theorem exists_attach_eq_ok {n : Node} {kids : List (Slot Node)}
    (h : Slot.AllFollow family n.layout kids) : ∃ m, n.attach kids = .ok m := by
  rcases n with b | i | m
  · cases b with
    | table alignments =>
      obtain ⟨head, rows, rfl⟩ := exists_table h
      refine ⟨block (.table alignments head rows), ?_⟩
      rw [attach, attachBlock, attachTable_eq_ok]
      exact ⟨head, rows, firstHead_eq_ok.mpr ⟨_, rfl⟩, firstBlocks_eq_ok.mpr ⟨[], rfl⟩, rfl⟩
    | codeBlock | html | rule => exact ⟨_, rfl⟩
    | plain | paragraph | heading | tableCell =>
      obtain ⟨is, rfl⟩ := exists_inlines h
      exact ⟨_, attachOne_eq_ok.mpr ⟨is, firstInlines_eq_ok.mpr ⟨[], rfl⟩, rfl⟩⟩
    | blockQuote | orderedList | bulletList | listItem | tableRow | div =>
      obtain ⟨bs, rfl⟩ := exists_blocks h
      exact ⟨_, attachOne_eq_ok.mpr ⟨bs, firstBlocks_eq_ok.mpr ⟨[], rfl⟩, rfl⟩⟩
  · cases i with
    | text | code | math | html | softBreak | hardBreak => exact ⟨_, rfl⟩
    | emphasis | strong | strikethrough | link | image | span =>
      obtain ⟨is, rfl⟩ := exists_inlines h
      exact ⟨_, attachOne_eq_ok.mpr ⟨is, firstInlines_eq_ok.mpr ⟨[], rfl⟩, rfl⟩⟩
  · cases m with
    | bool | str => exact ⟨_, rfl⟩
    | inlines =>
      obtain ⟨is, rfl⟩ := exists_inlines h
      exact ⟨_, attachOne_eq_ok.mpr ⟨is, firstInlines_eq_ok.mpr ⟨[], rfl⟩, rfl⟩⟩
    | blocks =>
      obtain ⟨bs, rfl⟩ := exists_blocks h
      exact ⟨_, attachOne_eq_ok.mpr ⟨bs, firstBlocks_eq_ok.mpr ⟨[], rfl⟩, rfl⟩⟩
    | list =>
      obtain ⟨ms, rfl⟩ := exists_list h
      exact ⟨_, attachOne_eq_ok.mpr ⟨ms, firstList_eq_ok.mpr ⟨[], rfl⟩, rfl⟩⟩
    | map =>
      obtain ⟨slot, hslot, rfl⟩ := exists_slot h
      obtain ⟨entries, rfl⟩ := exists_entries hslot
      exact ⟨_, attachOne_eq_ok.mpr ⟨entries, firstEntries_eq_ok.mpr ⟨[], rfl⟩, rfl⟩⟩

/-- A node that takes slots has taken as many as it has places. -/
theorem take_of_attach {n filled : Node} {slots : List (Slot Node)} (h : n.attach slots = .ok filled) :
    filled.shell = n.shell ∧ filled.children = slots.take n.layout.length := by
  obtain ⟨hshell, rest, rfl⟩ := attach_eq_ok_iff.mp h
  refine ⟨hshell, (List.take_left' ?_).symm⟩
  rw [length_children, layout_eq_of_shell hshell]

/-- Children that follow the layout of a node are the children of some node with its shell. -/
theorem exists_children {n : Node} {kids : List (Slot Node)}
    (h : Slot.AllFollow family n.layout kids) :
    ∃ m : Node, m.shell = n.shell ∧ m.children = kids := by
  obtain ⟨m, hm⟩ := exists_attach_eq_ok h
  obtain ⟨hshell, hchildren⟩ := take_of_attach hm
  rw [h.length_eq, List.take_length] at hchildren
  exact ⟨m, hshell, hchildren⟩

/-- Whether children get in or not, the shell of a node stays. -/
theorem shell_fill (n : Node) (kids : List (Slot Node)) : (n.fill kids).shell = n.shell := by
  rw [fill]
  cases h : n.attach kids with
  | ok filled => exact (attach_eq_ok_iff.mp h).1
  | error failure => exact (congrArg shell (node_of_attach_eq_error h)).trans (shell_withHead n kids)

@[simp]
theorem family_fill (n : Node) (kids : List (Slot Node)) : (n.fill kids).family = n.family := by
  rw [← family_shell, shell_fill, family_shell]

@[simp]
theorem layout_fill (n : Node) (kids : List (Slot Node)) : (n.fill kids).layout = n.layout := by
  rw [← layout_shell, shell_fill, layout_shell]

/-- A node is its shell, filled with its children. -/
theorem fill_eq_of_shell {n m : Node} (h : n.shell = m.shell) : n.fill m.children = m := by
  rw [fill, attach_eq_ok_of_shell h]

section

variable {n : Node} {kids : List (Slot Node)} (h : Slot.AllFollow family n.layout kids)

include h

/-- Children that follow the layout of a node get in. -/
theorem attach_fill : n.attach kids = .ok (n.fill kids) := by
  obtain ⟨m, hshell, rfl⟩ := exists_children h
  rw [fill_eq_of_shell hshell.symm, attach_eq_ok_of_shell hshell.symm]

theorem children_fill : (n.fill kids).children = kids := by
  obtain ⟨m, hshell, rfl⟩ := exists_children h
  rw [fill_eq_of_shell hshell.symm]

end

/-- What is made of children depends on the shell of the node that they are put into. -/
theorem fill_congr {n m : Node} (h : n.shell = m.shell) {kids : List (Slot Node)}
    (hkids : Slot.AllFollow family n.layout kids) : n.fill kids = m.fill kids := by
  obtain ⟨filled, hshell, rfl⟩ := exists_children hkids
  rw [fill_eq_of_shell hshell.symm, fill_eq_of_shell (h.symm.trans hshell.symm)]

/-- **Children and nodes.** A node has as many slots as its layout has places. It accepts slots exactly if there
are that many and each of these is of the kind and holds the family that the layout has at its place; slots
behind them are left out. Then they are what comes out of it again, and the shell is the one it had. Children
that came out of a node get into its shell, and make the node. -/
theorem attach_iff_follow (n : Node) (slots : List (Slot Node)) :
    n.detach.2.length = n.layout.length ∧
    ((∃ filled, n.attach slots = .ok filled) ↔
      n.layout.length ≤ slots.length ∧
        Slot.AllFollow family n.layout (slots.take n.layout.length)) ∧
    (∀ filled, n.attach slots = .ok filled →
      filled.detach = (n.detach.1, slots.take n.layout.length)) ∧
    n.detach.1.attach n.detach.2 = .ok n := by
  refine ⟨length_children n, ⟨?_, ?_⟩, ?_, attach_children n⟩
  · rintro ⟨filled, h⟩
    obtain ⟨hshell, htake⟩ := take_of_attach h
    have hfollow := children_follow filled
    rw [layout_eq_of_shell hshell, htake] at hfollow
    have hlength := hfollow.length_eq
    rw [List.length_take] at hlength
    exact ⟨by omega, hfollow⟩
  · rintro ⟨-, hfollow⟩
    obtain ⟨filled, hshell, hchildren⟩ := exists_children hfollow
    refine ⟨filled, attach_eq_ok_iff.mpr ⟨hshell, slots.drop n.layout.length, ?_⟩⟩
    rw [hchildren, List.take_append_drop]
  · intro filled h
    obtain ⟨hshell, htake⟩ := take_of_attach h
    rw [detach, hshell, htake]
    rfl

/-- A table takes a head and rows, and leaves a third slot alone. -/
theorem attach_iff_follow_table :
    let row (text : String) := Block.tableRow [.tableCell [.text text]]
    let table (head : Block) (rows : List Block) := block (.table [.left] head rows)
    let slots := [.single (block (row "h")), .sequence [block (row "r")], .map []]
    (table (row "a") []).attach slots = .ok (table (row "h") [row "r"]) ∧
      (table (row "h") [row "r"]).detach =
        (table (.tableRow []) [], [.single (block (row "h")), .sequence [block (row "r")]]) := by
  intro row table slots
  have hattach : (table (row "a") []).attach slots = .ok (table (row "h") [row "r"]) := rfl
  exact ⟨hattach, (attach_iff_follow (table (row "a") []) slots).2.2.1 _ hattach⟩

/-- Only metadata stands in maps. -/
theorem metadata_of_map_mem_layout {n : Node} {place : SlotKind × Family} (hp : place ∈ n.layout)
    (hmap : place.1 = .map) : place.2 = .metadata := by
  rcases n with b | i | m
  · cases b <;> simp_all [layout, layoutOfBlock]
    rcases hp with rfl | rfl <;> cases hmap
  · cases i <;> simp_all [layout, layoutOfInline]
  · cases m <;> simp_all [layout, layoutOfMetadata]

@[simp]
theorem family_container (f : Family) : (container f).family = f := by
  cases f <;> rfl

@[simp]
theorem layout_container (f : Family) : (container f).layout = [(.sequence, f)] := by
  cases f <;> rfl

-- ---------------------------------------------------------------------------
-- Induction
-- ---------------------------------------------------------------------------

theorem size_le_sizeOfAll {n : Node} {nodes : List Node} (h : n ∈ nodes) :
    n.size ≤ sizeOfAll nodes := by
  induction nodes with
  | nil => cases h
  | cons m nodes ih =>
    rw [sizeOfAll]
    rcases List.mem_cons.mp h with rfl | h
    · omega
    · have := ih h
      omega

theorem sizeOfAll_le_sizeOfSlots {slot : Slot Node} {slots : List (Slot Node)} (h : slot ∈ slots) :
    sizeOfAll slot.toList ≤ sizeOfSlots slots := by
  induction slots with
  | nil => cases h
  | cons first slots ih =>
    rw [sizeOfSlots]
    rcases List.mem_cons.mp h with rfl | h
    · omega
    · have := ih h
      omega

theorem sizeOfAll_lt_of_mem_children {n : Node} {slot : Slot Node} (h : slot ∈ n.children) :
    sizeOfAll slot.toList < n.size := by
  have hall := sizeOfAll_le_sizeOfSlots h
  have := size_eq n
  omega

theorem size_lt_of_mem_children {n child : Node} {slot : Slot Node} (hslot : slot ∈ n.children)
    (hchild : child ∈ slot.toList) : child.size < n.size :=
  Nat.lt_of_le_of_lt (size_le_sizeOfAll hchild) (sizeOfAll_lt_of_mem_children hslot)

/-- What a node has if its children have it, every node has. -/
@[elab_as_elim]
theorem induction {motive : Node → Prop}
    (step : ∀ n, (∀ slot ∈ n.children, ∀ child ∈ slot.toList, motive child) → motive n) (n : Node) :
    motive n := by
  induction h : n.size using Nat.strong_induction_on generalizing n with
  | _ size ih =>
    refine step n fun slot hslot child hchild => ih child.size ?_ child rfl
    rw [← h]
    exact size_lt_of_mem_children hslot hchild

end Node

namespace Document

/-- The two containers of a document. -/
def layout : List (SlotKind × Family) :=
  [(.map, .metadata), (.sequence, .block)]

/-- A document with given containers, an empty one where they do not follow the layout. -/
def filled (kids : List (Slot Node)) : Document :=
  match ofChildren kids with
  | .ok d => d
  | .error _ => default

theorem children_follow (d : Document) : Slot.AllFollow Node.family layout d.children :=
  .cons (Node.follows_entries _) (.cons (Node.follows_blocks _) .nil)

theorem ofChildren_children (d : Document) : ofChildren d.children = .ok d := by
  rw [ofChildren, children, Node.firstEntries_eq_ok.mpr ⟨_, rfl⟩]
  show (do let blocks ← Node.firstBlocks _; return _) = _
  rw [List.tail_cons, Node.firstBlocks_eq_ok.mpr ⟨_, rfl⟩]
  rfl

/-- Containers that follow the layout make a document. -/
theorem ofChildren_filled {kids : List (Slot Node)} (h : Slot.AllFollow Node.family layout kids) :
    ofChildren kids = .ok (filled kids) := by
  obtain ⟨slot, rest, hslot, hrest, rfl⟩ := List.forall₂_cons_left_iff.mp h
  obtain ⟨entries, rfl⟩ := Node.exists_entries hslot
  obtain ⟨bs, rfl⟩ := Node.exists_blocks hrest
  have hd := ofChildren_children ⟨entries, bs⟩
  rw [children] at hd
  rw [filled, hd]

end Document

end Literate
