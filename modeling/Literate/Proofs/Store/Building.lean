import Literate.Proofs.Store.Insertion

/-!
# Building documents

Building takes every node out of its entry, so a number that occurs twice would give an empty place the
second time, and a level of the tree is lost when the fuel runs out. Neither happens where trees are
stored properly (`Stored`) and their footprints have no entry in common.

Main results:

* `build_stored`: the tree that is stored at a number is built there, and no entry outside its footprint
  is touched.
* `toDocument_stored`: a store whose containers hold trees is built into the document of these trees.
* `toDocument_ofDocument`: putting a document into a store and building it again gives the document.
-/

namespace Literate.Store

variable {α β γ : Type} {s s' : Store} {f g : List Nat}

/-- Running `x` on `s` builds `b`, and leaves all entries outside `f` as they are. -/
def Builds (f : List Nat) (x : StateT Store (Except ShapeError) β) (s : Store) (b : β) : Prop :=
  ∃ s', x.run s = .ok (b, s') ∧ s'.size = s.size ∧ ∀ y ∉ f, s'.entry y = s.entry y

namespace Builds

theorem pure (b : β) : Builds [] (Pure.pure b) s b :=
  ⟨s, rfl, rfl, fun _ _ => rfl⟩

theorem bind {x : StateT Store (Except ShapeError) β} {k : β → StateT Store (Except ShapeError) γ}
    {b : β} {c : γ} (hx : Builds f x s b)
    (hk : ∀ s', s'.size = s.size → (∀ y ∉ f, s'.entry y = s.entry y) → Builds g (k b) s' c) :
    Builds (f ++ g) (x >>= k) s c := by
  obtain ⟨s₁, hrun, hsize, hentry⟩ := hx
  obtain ⟨s₂, hrun', hsize', hentry'⟩ := hk s₁ hsize hentry
  refine ⟨s₂, ?_, hsize'.trans hsize, fun y hy => ?_⟩
  · rw [StateT.run_bind, hrun]
    exact hrun'
  · rw [List.mem_append, not_or] at hy
    rw [hentry' y hy.2, hentry y hy.1]

theorem map {x : StateT Store (Except ShapeError) β} {b : β} (φ : β → γ) (hx : Builds f x s b) :
    Builds f (do return φ (← x)) s (φ b) := by
  have := hx.bind (k := fun b => Pure.pure (φ b)) fun s' _ _ => Builds.pure (φ b)
  rwa [List.append_nil] at this

/-- The members of a sequence are built one after another; each leaves the entries of the others alone,
as no entry belongs to two of them. -/
theorem mapM {R : Store → α → β → List Nat → Prop} {F : α → StateT Store (Except ShapeError) β}
    (hbuild : ∀ s a b f, R s a b f → f.Nodup → Builds f (F a) s b)
    (hstable : ∀ s s' a b f, s'.size = s.size → (∀ x ∈ f, s'.entry x = s.entry x) → R s a b f →
      R s' a b f)
    {as : List α} {bs : List β} (h : Along (R s) as bs f) (hf : f.Nodup) :
    Builds f (as.mapM F) s bs := by
  suffices ∀ s', s'.size = s.size → (∀ x ∈ f, s'.entry x = s.entry x) →
      Builds f (as.mapM F) s' bs from this s rfl fun _ _ => rfl
  induction h with
  | nil =>
    intro s' _ _
    rw [List.mapM_nil]
    exact .pure []
  | cons head _ ih =>
    intro s' hsize hentry
    obtain ⟨hhead, htail, hdisjoint⟩ := List.nodup_append'.mp hf
    rw [List.mapM_cons]
    refine (hbuild _ _ _ _ (hstable _ _ _ _ _ hsize (fun x hx => ?_) head) hhead).bind
      fun s₁ hsize₁ hentry₁ => ?_
    · exact hentry x (List.mem_append_left _ hx)
    · refine .map _ (ih htail s₁ (hsize₁.trans hsize) fun x hx => ?_)
      rw [hentry₁ x fun hmem => hdisjoint hmem hx]
      exact hentry x (List.mem_append_right _ hx)

end Builds

/-- A tree with no more than `depth` nodes. -/
def StoredWithin (depth : Nat) (s : Store) (id : Nat) (n : Node) (f : List Nat) : Prop :=
  Stored s id n f ∧ f.length ≤ depth

theorem StoredWithin.of_entries {depth id : Nat} {n : Node} (h : StoredWithin depth s id n f)
    (hsize : s'.size = s.size) (hentry : ∀ x ∈ f, s'.entry x = s.entry x) :
    StoredWithin depth s' id n f :=
  ⟨h.1.of_entries (Nat.le_of_eq hsize.symm) hentry, h.2⟩

/-- A slot is built member by member. -/
theorem builds_slot {depth : Nat} {F : NodeId → StateT Store (Except ShapeError) Node}
    (hbuild : ∀ s id n f, StoredWithin depth s id n f → f.Nodup → Builds f (F id) s n)
    {slot : Slot NodeId} {kid : Slot Node} (h : SlotAlong (StoredWithin depth s) slot kid f)
    (hf : f.Nodup) : Builds f (slot.mapM F) s kid := by
  cases h with
  | single child => exact .map _ (hbuild _ _ _ _ child hf)
  | sequence children =>
    exact .map _ (Builds.mapM hbuild (fun _ _ _ _ _ hsize hsame hc => hc.of_entries hsize hsame)
      children hf)
  | map entries =>
    refine .map _ (Builds.mapM (R := fun s => EntryAlong (StoredWithin depth s)) ?_ ?_ entries hf)
    · intro s entry kid f hentry hf
      cases hentry with
      | mk key value => exact .map _ (hbuild _ _ _ _ value hf)
    · intro s s' entry kid f hsize hsame hentry
      cases hentry with
      | mk key value => exact .mk key (value.of_entries hsize hsame)

/-- Slots are built one after another. -/
theorem builds_slots {depth : Nat} {F : NodeId → StateT Store (Except ShapeError) Node}
    (hbuild : ∀ s id n f, StoredWithin depth s id n f → f.Nodup → Builds f (F id) s n)
    {slots : List (Slot NodeId)} {kids : List (Slot Node)}
    (h : SlotsAlong (StoredWithin depth s) slots kids f) (hf : f.Nodup) :
    Builds f (slots.mapM (Slot.mapM F)) s kids := by
  refine Builds.mapM (R := fun s => SlotAlong (StoredWithin depth s)) ?_ ?_ h hf
  · intro s slot kid f hslot hf
    exact builds_slot hbuild hslot hf
  · intro s s' slot kid f hsize hsame hslot
    exact hslot.imp_of_sublist fun _ _ _ hg hc =>
      hc.of_entries hsize fun x hx => hsame x (hg.subset hx)

/-- The tree that is stored at a number is built there. A level of the tree uses one entry of the
footprint at least, so the fuel lasts if it is no less than the footprint's length. -/
theorem build_stored (depth : Nat) {id : Nat} {n : Node} (h : StoredWithin depth s id n f)
    (hf : f.Nodup) : Builds f (build depth id) s n := by
  induction depth generalizing s id n f with
  | zero =>
    obtain ⟨⟨_, _, _⟩, hlength⟩ := h
    simp at hlength
  | succ depth ih =>
    obtain ⟨⟨hlt, hshell, hkids⟩, hlength⟩ := h
    rename_i below
    obtain ⟨hid, hbelow⟩ := List.nodup_cons.mp hf
    have htaken : Builds [id] (modifyGet (take · id)) s (s.entry id) :=
      ⟨s.modify id fun _ => default, rfl, size_modify, fun y hy =>
        entry_modify_of_ne fun heq => hy (List.mem_singleton.mpr heq)⟩
    refine (htaken.bind fun s₁ hsize₁ hentry₁ => ?_ : Builds ([id] ++ below) _ s n)
    -- The entry that is taken is the node itself, so the trees below it are still there.
    have hkids₁ : SlotsAlong (StoredWithin depth s₁) (s.slots id) n.children below := by
      refine SlotsAlong.imp_of_sublist hkids fun c m g hg hc => ⟨?_, ?_⟩
      · refine hc.of_entries (Nat.le_of_eq hsize₁.symm) fun x hx => hentry₁ x fun heq => hid ?_
        rw [← List.mem_singleton.mp heq]
        exact hg.subset hx
      · have hle := hg.length_le
        simp only [List.length_cons] at hlength
        omega
    rw [← List.append_nil below]
    refine (builds_slots (fun _ _ _ _ => ih) hkids₁ hbelow).bind fun s' _ _ => ?_
    have hattach : (s.entry id).node.attach n.children = .ok n := Node.attach_eq_ok_of_shell hshell
    rw [hattach]
    exact .pure n

/-- A store whose containers hold trees is built into the document of these trees. -/
theorem toDocument_stored {kids : List (Slot Node)} (h : SlotsAlong (Stored s) s.root kids f)
    (hf : f.Nodup) (hkids : Slot.AllFollow Node.family Document.layout kids) :
    s.toDocument = .ok (Document.filled kids) := by
  have hwithin : SlotsAlong (StoredWithin (s.size + 1) s) s.root kids f := by
    refine SlotsAlong.imp_of_sublist h fun c m g hg hc => ⟨hc, ?_⟩
    have hle := length_le_size_of_nodup (hf.sublist hg) fun x hx => hc.lt_of_mem hx
    omega
  obtain ⟨s', hrun, _, _⟩ := builds_slots (fun _ _ _ _ => build_stored _) hwithin hf
  rw [toDocument, ← Document.ofChildren_filled hkids, StateT.run'_eq, hrun]
  rfl

/-- A document that is put into a store comes out again as it was. -/
theorem toDocument_ofDocument (d : Document) : (ofDocument d).toDocument = .ok d := by
  have h := toDocument_stored (ofDocument_stored d) (List.nodup_range' ..) d.children_follow
  rw [h, Document.filled, Document.ofChildren_children]

end Literate.Store
