import Literate.Document.Node
import Mathlib

/-!
# What gets into a node, and what is left of it

Children are accepted exactly if they begin with the children of a node that has the same shell, and then that
node is what they make (`attach_eq_ok_iff`). So what gets in is what comes out again.

A node that refuses its children stays as it was, with one exception. A table takes its head before it looks at
its rows, and keeps it when these are refused (`withHead`).

Main results:

* `attach_cases`: how a node takes its slots, whichever kind it is of.
* `attach_eq_ok_iff`: which children get in, and what they make.
* `attach_error_iff`: when a node that refuses its children is left unchanged.
-/

namespace Literate.Node

variable {n filled : Node} {slots : List (Slot Node)} {failure : AttachFailure}

-- ---------------------------------------------------------------------------
-- What the first slot must hold
-- ---------------------------------------------------------------------------

theorem bind_eq_ok {ε α β : Type} {first : Except ε α} {next : α → Except ε β} {b : β} :
    (first >>= next) = .ok b ↔ ∃ a, first = .ok a ∧ next a = .ok b := by
  cases first <;> simp [bind, Except.bind]

/-- Nodes that are taken for members of a family one by one are these members. -/
theorem mapM_eq_ok_iff {ε α β : Type} {take : α → Except ε β} {put : β → α}
    (h : ∀ a b, take a = .ok b ↔ a = put b) (nodes : List α) (members : List β) :
    nodes.mapM take = .ok members ↔ nodes = members.map put := by
  induction nodes generalizing members with
  | nil => cases members <;> simp [pure, Except.pure]
  | cons node nodes ih =>
    rw [List.mapM_cons, bind_eq_ok]
    simp only [bind_eq_ok, h, ih, pure, Except.pure, Except.ok.injEq]
    cases members <;> simp

/-- What a slot holds, taken for something else. -/
theorem first_bind_eq_ok {α β : Type} {first : Except ShapeError α} {slot : α → Slot Node}
    {take : α → Except ShapeError β} {put : β → α}
    (hfirst : ∀ a, first = .ok a ↔ ∃ rest, slots = slot a :: rest)
    (htake : ∀ a b, take a = .ok b ↔ a = put b) {b : β} :
    (first >>= take) = .ok b ↔ ∃ rest, slots = slot (put b) :: rest := by
  simp only [bind_eq_ok, htake, exists_eq_right, hfirst]

theorem toBlock_eq_ok (n : Node) (b : Block) : n.toBlock = .ok b ↔ n = block b := by
  cases n <;> simp [toBlock]

theorem toInline_eq_ok (n : Node) (i : Inline) : n.toInline = .ok i ↔ n = inline i := by
  cases n <;> simp [toInline]

theorem toMetadata_eq_ok (n : Node) (m : Metadata) : n.toMetadata = .ok m ↔ n = metadata m := by
  cases n <;> simp [toMetadata]

theorem toEntry_eq_ok (entry : String × Node) (taken : String × Metadata) :
    (do return (entry.1, ← entry.2.toMetadata) : Except ShapeError (String × Metadata)) = .ok taken ↔
      entry = (taken.1, metadata taken.2) := by
  simp only [bind_eq_ok, toMetadata_eq_ok, pure, Except.pure, Except.ok.injEq]
  constructor
  · rintro ⟨m, hm, rfl⟩
    rw [← hm]
  · rintro rfl
    exact ⟨taken.2, rfl, rfl⟩

theorem firstSequence_eq_ok (nodes : List Node) :
    firstSequence slots = .ok nodes ↔ ∃ rest, slots = .sequence nodes :: rest := by
  rcases slots with _ | ⟨slot, slots⟩
  · simp [firstSequence]
  · cases slot <;> simp [firstSequence]

theorem firstSingle_eq_ok (n : Node) : firstSingle slots = .ok n ↔ ∃ rest, slots = .single n :: rest := by
  rcases slots with _ | ⟨slot, slots⟩
  · simp [firstSingle]
  · cases slot <;> simp [firstSingle]

theorem firstMap_eq_ok (entries : List (String × Node)) :
    firstMap slots = .ok entries ↔ ∃ rest, slots = .map entries :: rest := by
  rcases slots with _ | ⟨slot, slots⟩
  · simp [firstMap]
  · cases slot <;> simp [firstMap]

theorem firstInlines_eq_ok {is : List Inline} :
    firstInlines slots = .ok is ↔ ∃ rest, slots = .sequence (is.map inline) :: rest :=
  first_bind_eq_ok firstSequence_eq_ok (mapM_eq_ok_iff toInline_eq_ok)

theorem firstBlocks_eq_ok {bs : List Block} :
    firstBlocks slots = .ok bs ↔ ∃ rest, slots = .sequence (bs.map block) :: rest :=
  first_bind_eq_ok firstSequence_eq_ok (mapM_eq_ok_iff toBlock_eq_ok)

theorem firstList_eq_ok {ms : List Metadata} :
    (do (← firstSequence slots).mapM toMetadata) = .ok ms ↔
      ∃ rest, slots = .sequence (ms.map metadata) :: rest :=
  first_bind_eq_ok firstSequence_eq_ok (mapM_eq_ok_iff toMetadata_eq_ok)

theorem firstEntries_eq_ok {entries : List (String × Metadata)} :
    firstEntries slots = .ok entries ↔
      ∃ rest, slots = .map (entries.map fun (key, value) => (key, metadata value)) :: rest :=
  first_bind_eq_ok firstMap_eq_ok (mapM_eq_ok_iff toEntry_eq_ok)

theorem firstHead_eq_ok {head : Block} :
    (do (← firstSingle slots).toBlock) = .ok head ↔ ∃ rest, slots = .single (block head) :: rest :=
  first_bind_eq_ok firstSingle_eq_ok toBlock_eq_ok

-- ---------------------------------------------------------------------------
-- What gets in
-- ---------------------------------------------------------------------------

theorem attachOne_eq_ok {α : Type} {content : Except ShapeError α} {build : α → Node} :
    attachOne n content build = .ok filled ↔ ∃ a, content = .ok a ∧ build a = filled := by
  cases content <;> simp [attachOne]

theorem attachTable_eq_ok {alignments : List Alignment} {head : Block} {rows : List Block} :
    attachTable alignments head rows slots = .ok filled ↔
      ∃ newHead newRows, (firstSingle slots >>= toBlock) = .ok newHead ∧
        firstBlocks slots.tail = .ok newRows ∧
        block (.table alignments newHead newRows) = filled := by
  unfold attachTable
  rcases firstSingle slots >>= toBlock with cause | newHead
  · simp
  · rcases firstBlocks slots.tail with cause | newRows <;> simp

/-- Whether children get in, and what they make, depends on the shell of a node alone. -/
theorem attach_shell_eq_ok : n.shell.attach slots = .ok filled ↔ n.attach slots = .ok filled := by
  rcases n with b | i | m
  · cases b <;> simp only [shell, shellOfBlock, attach, attachBlock, attachOne_eq_ok,
      attachTable_eq_ok]
  · cases i <;> simp only [shell, shellOfInline, attach, attachInline, attachOne_eq_ok]
  · cases m <;> simp only [shell, shellOfMetadata, attach, attachMetadata, attachOne_eq_ok]

/-- How a node with one slot takes it: `first` reads what the slot holds, and `build` makes the node with it. -/
structure TakesOne (n : Node) {α : Type} (first : List (Slot Node) → Except ShapeError α)
    (slot : α → Slot Node) (build : α → Node) : Prop where
  attach_eq : ∀ slots, n.attach slots = attachOne n (first slots) build
  first_eq_ok : ∀ slots a, first slots = .ok a ↔ ∃ rest, slots = slot a :: rest
  shell_build : ∀ a, (build a).shell = n.shell
  children_build : ∀ a, (build a).children = [slot a]
  exists_build : ∃ a, build a = n

/-- A node has no slots, is a table, or has one. Kinds that go through one case differ in nothing but their
names. -/
theorem attach_cases (n : Node) :
    (n.children = [] ∧ ∀ slots, n.attach slots = .ok n) ∨
    (∃ alignments head rows, n = block (.table alignments head rows)) ∨
    ∃ (α : Type) (first : List (Slot Node) → Except ShapeError α) (slot : α → Slot Node)
      (build : α → Node), n.TakesOne first slot build := by
  rcases n with b | i | m
  · cases b with
    | table alignments head rows => exact .inr (.inl ⟨alignments, head, rows, rfl⟩)
    | codeBlock | html | rule => exact .inl ⟨rfl, fun _ => rfl⟩
    | plain | paragraph | heading | tableCell =>
      exact .inr (.inr ⟨_, firstInlines, _, _, fun _ => rfl, fun _ _ => firstInlines_eq_ok, fun _ => rfl,
        fun _ => rfl, _, rfl⟩)
    | blockQuote | orderedList | bulletList | listItem | tableRow | div =>
      exact .inr (.inr ⟨_, firstBlocks, _, _, fun _ => rfl, fun _ _ => firstBlocks_eq_ok, fun _ => rfl,
        fun _ => rfl, _, rfl⟩)
  · cases i with
    | text | code | math | html | softBreak | hardBreak => exact .inl ⟨rfl, fun _ => rfl⟩
    | emphasis | strong | strikethrough | link | image | span =>
      exact .inr (.inr ⟨_, firstInlines, _, _, fun _ => rfl, fun _ _ => firstInlines_eq_ok, fun _ => rfl,
        fun _ => rfl, _, rfl⟩)
  · cases m with
    | bool | str => exact .inl ⟨rfl, fun _ => rfl⟩
    | inlines =>
      exact .inr (.inr ⟨_, firstInlines, _, _, fun _ => rfl, fun _ _ => firstInlines_eq_ok, fun _ => rfl,
        fun _ => rfl, _, rfl⟩)
    | blocks =>
      exact .inr (.inr ⟨_, firstBlocks, _, _, fun _ => rfl, fun _ _ => firstBlocks_eq_ok, fun _ => rfl,
        fun _ => rfl, _, rfl⟩)
    | list =>
      exact .inr (.inr ⟨_, _, _, _, fun _ => rfl, fun _ _ => firstList_eq_ok, fun _ => rfl, fun _ => rfl, _,
        rfl⟩)
    | map =>
      exact .inr (.inr ⟨_, firstEntries, _, _, fun _ => rfl, fun _ _ => firstEntries_eq_ok, fun _ => rfl,
        fun _ => rfl, _, rfl⟩)

/-- What gets in is what the new node has, and the slots behind that are not looked at. -/
theorem exists_rest_of_attach (h : n.attach slots = .ok filled) :
    filled.shell = n.shell ∧ ∃ rest, slots = filled.children ++ rest := by
  rcases n.attach_cases with ⟨hchildren, hattach⟩ | ⟨alignments, head, rows, rfl⟩ |
    ⟨α, first, slot, build, htakes⟩
  · rw [hattach] at h
    cases h
    exact ⟨rfl, slots, by rw [hchildren, List.nil_append]⟩
  · obtain ⟨newHead, newRows, hhead, hrows, rfl⟩ := attachTable_eq_ok.mp h
    obtain ⟨rest, rfl⟩ := firstHead_eq_ok.mp hhead
    obtain ⟨rest, rfl⟩ := firstBlocks_eq_ok.mp hrows
    exact ⟨rfl, rest, rfl⟩
  · rw [htakes.attach_eq] at h
    obtain ⟨a, hfirst, rfl⟩ := attachOne_eq_ok.mp h
    obtain ⟨rest, rfl⟩ := (htakes.first_eq_ok _ _).mp hfirst
    exact ⟨htakes.shell_build a, rest, by rw [htakes.children_build, List.singleton_append]⟩

/-- The children that a node has get in again, with whatever stands behind them. -/
theorem attach_children_append (n : Node) (rest : List (Slot Node)) :
    n.attach (n.children ++ rest) = .ok n := by
  rcases n.attach_cases with ⟨-, hattach⟩ | ⟨alignments, head, rows, rfl⟩ | ⟨α, first, slot, build, htakes⟩
  · exact hattach _
  · rw [attach, attachBlock, attachTable_eq_ok]
    exact ⟨head, rows, firstHead_eq_ok.mpr ⟨_, rfl⟩, firstBlocks_eq_ok.mpr ⟨rest, rfl⟩, rfl⟩
  · rw [htakes.attach_eq, attachOne_eq_ok]
    obtain ⟨a, rfl⟩ := htakes.exists_build
    rw [htakes.children_build, List.singleton_append]
    exact ⟨a, (htakes.first_eq_ok _ _).mpr ⟨rest, rfl⟩, rfl⟩

theorem attach_eq_ok_iff :
    n.attach slots = .ok filled ↔ filled.shell = n.shell ∧ ∃ rest, slots = filled.children ++ rest := by
  refine ⟨exists_rest_of_attach, ?_⟩
  rintro ⟨hshell, rest, rfl⟩
  rw [← attach_shell_eq_ok, ← hshell, attach_shell_eq_ok]
  exact attach_children_append filled rest

-- ---------------------------------------------------------------------------
-- What is left
-- ---------------------------------------------------------------------------

/-- What a node becomes if it refuses slots. A table has taken its head by then, if they begin with one. -/
def withHead (n : Node) (slots : List (Slot Node)) : Node :=
  match n, slots with
  | block (.table alignments _ rows), .single (block head) :: _ => block (.table alignments head rows)
  | n, _ => n

theorem node_of_attachOne_eq_error {α : Type} {content : Except ShapeError α} {build : α → Node}
    (h : attachOne n content build = .error failure) : failure.node = n := by
  cases content with
  | ok a => cases h
  | error cause =>
    cases h
    rfl

theorem node_of_attachTable_eq_error {alignments : List Alignment} {head : Block} {rows : List Block}
    (h : attachTable alignments head rows slots = .error failure) :
    failure.node = (block (.table alignments head rows)).withHead slots := by
  rcases slots with _ | ⟨slot, rest⟩
  · cases h
    rfl
  · cases slot with
    | sequence | map =>
      cases h
      rfl
    | single first =>
      cases first with
      | inline | metadata =>
        cases h
        rfl
      | block newHead =>
        -- the head gets in, so that it is the rows that are refused
        have hhead : (do (← firstSingle (.single (block newHead) :: rest)).toBlock) = .ok newHead := rfl
        rw [attachTable, hhead, List.tail_cons] at h
        cases hrows : firstBlocks rest with
        | ok newRows =>
          rw [hrows] at h
          cases h
        | error cause =>
          rw [hrows] at h
          cases h
          rfl

theorem withHead_of_ne_table (h : ∀ alignments head rows, n ≠ block (.table alignments head rows)) :
    n.withHead slots = n := by
  unfold withHead
  split
  · exact absurd rfl (h _ _ _)
  · rfl

theorem node_of_attach_eq_error (h : n.attach slots = .error failure) : failure.node = n.withHead slots := by
  rcases n.attach_cases with ⟨-, hattach⟩ | ⟨alignments, head, rows, rfl⟩ | ⟨α, first, slot, build, htakes⟩
  · rw [hattach] at h
    cases h
  · exact node_of_attachTable_eq_error h
  · rw [htakes.attach_eq] at h
    rw [node_of_attachOne_eq_error h, withHead_of_ne_table]
    rintro alignments head rows rfl
    -- a table has two slots
    obtain ⟨a, hbuild⟩ := htakes.exists_build
    have hlength : (children (block (.table alignments head rows))).length = 1 := by
      rw [← hbuild, htakes.children_build, List.length_singleton]
    cases hlength

theorem shell_withHead (n : Node) (slots : List (Slot Node)) : (n.withHead slots).shell = n.shell := by
  unfold withHead
  split <;> rfl

theorem withHead_eq_self_iff :
    n.withHead slots = n ↔ ∀ alignments head rows newHead rest,
      n = block (.table alignments head rows) → slots = .single (block newHead) :: rest →
        newHead = head := by
  unfold withHead
  split
  · constructor
    · rintro hsame _ _ _ _ _ ⟨⟩ ⟨⟩
      cases hsame
      rfl
    · intro hall
      rw [hall _ _ _ _ _ rfl rfl]
  · rename_i hnot
    exact iff_of_true rfl fun _ _ _ _ _ hn hslots => (hnot _ _ _ _ _ hn hslots).elim

/-- **A node that refuses slots.** It is left as it was exactly if it is no table, or a table and the slots do
not begin with a head other than its own. A table keeps such a head. -/
theorem attach_error_iff (h : n.attach slots = .error failure) :
    failure.node = n.withHead slots ∧
    (failure.node = n ↔ ∀ alignments head rows newHead rest,
      n = block (.table alignments head rows) → slots = .single (block newHead) :: rest →
        newHead = head) := by
  have hnode := node_of_attach_eq_error h
  refine ⟨hnode, ?_⟩
  rw [hnode]
  exact withHead_eq_self_iff

/-- A paragraph that is given a block behind an inline does not keep the inline. -/
theorem attach_error_iff_paragraph :
    let paragraph := block (.paragraph [.text "old"])
    let slots := [.sequence [inline (.text "new"), block .rule]]
    let failure : AttachFailure := ⟨.family .inline .block, paragraph⟩
    paragraph.attach slots = .error failure ∧ failure.node = paragraph := by
  intro paragraph slots failure
  have hattach : paragraph.attach slots = .error failure := rfl
  refine ⟨hattach, (attach_error_iff hattach).2.mpr fun _ _ _ _ _ hn => ?_⟩
  simp [paragraph] at hn

/-- A table that refuses its rows is left with the new head. -/
theorem attach_error_table :
    let table (head : List Block) := block (.table [.none] (.tableRow head) [])
    let cell := Block.tableCell [.text "new"]
    (table []).attach [.single (block (.tableRow [cell])), .sequence [inline .softBreak]] =
        .error ⟨.family .block .inline, table [cell]⟩ ∧
      table [cell] ≠ table [] := by
  intro table cell
  exact ⟨rfl, fun hsame => by cases hsame⟩

end Literate.Node
