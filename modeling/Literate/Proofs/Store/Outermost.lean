import Literate.Proofs.Store.Applying
import Literate.Proofs.Store.Numbering
import Literate.Proofs.Store.Reachability

/-!
# Records below one another

Anything can be recorded for any number, and so a node with a record can stand below another one. The
records that count are the outermost. They are put in, what is below them is gone, and the records that
were for nodes there are left over. What comes out is the document in which the recorded nodes are
replaced from the root downwards (`Document.replaced`).

Which records are outermost is settled before the first of them is put in. The ledger of this module
(`outermost`) lists these alone, so that a visit uses all records that it finds, as it has to.

Main results:

* `replaced_congr`: what becomes of a tree does not depend on the records below a recorded node.
* `applyNode_intact`: putting records in at a number gives what stands for its node.
* `toDocument_recordAll`: records of any kind for any nodes of a document, from the recording of them to
  the document that is built.
-/

namespace Literate

open Relation (ReflTransGen TransGen)

namespace Store

variable {s s' s₀ : Store} {find find' : Nat → Option (List Node)} {id x : Nat} {c : Nat × Node}
  {f : List Nat}

-- ---------------------------------------------------------------------------
-- Nodes above a node
-- ---------------------------------------------------------------------------

namespace Ordered

theorem nodup (h : Ordered s id c f) : f.Nodup := by
  rw [h.footprint_eq]
  exact List.nodup_range' ..

theorem settles (h : Ordered s id c f) : Settles s .empty id (.self c.2) f :=
  .of_stored h.stored fun _ _ => rfl

/-- No node is below itself. -/
theorem not_transGen_self (h : Ordered s id c f) : ¬ TransGen (Child s) id id := by
  intro hcycle
  obtain ⟨child, ⟨slot, hslot, hchild⟩, hreach⟩ := TransGen.head'_iff.mp hcycle
  have hnodup := h.nodup
  obtain ⟨below, rfl, -, hkids⟩ := h.below
  obtain ⟨_, _, g, hg, hkid⟩ :=
    hkids.toList.exists_of_mem_left (List.mem_flatMap.mpr ⟨slot, hslot, hchild⟩)
  exact (List.nodup_cons.mp hnodup).1 (hg.subset (hkid.settles.mem_of_reachable hreach))

end Ordered

/-- Whether there is nothing, among the numbers `f`, for the nodes above a node. -/
def Uncovered (s : Store) (find : Nat → Option (List Node)) (f : List Nat) (x : Nat) : Prop :=
  ∀ above ∈ f, TransGen (Child s) above x → find above = none

/-- In its own tree, a node has nothing above it. -/
theorem Ordered.uncovered (h : Ordered s id c f) : Uncovered s find f id := by
  intro above habove hbelow
  exact absurd (.trans_right (h.settles.reachable habove) hbelow) h.not_transGen_self

theorem uncovered_cons (h : find id = none) : Uncovered s find (id :: f) x ↔ Uncovered s find f x := by
  simp [Uncovered, h]

/-- What is above a node is in the same tree as the node. -/
theorem uncovered_iff_of_mem {slots : List (Slot NodeId)} {kids : List (Slot (Nat × Node))}
    (h : SlotsAlong (Ordered s) slots kids f) (hf : f.Nodup) (hc : c ∈ kids.flatMap Slot.toList)
    (hx : x ∈ List.range' c.1 c.2.size) :
    Uncovered s find f x ↔ Uncovered s find (List.range' c.1 c.2.size) x := by
  have htrees := SlotsAlong.toList h
  obtain ⟨_, _, g, hg, hkid⟩ := htrees.exists_of_mem_right hc
  constructor
  · intro huncovered above habove
    exact huncovered above (hg.subset (hkid.footprint_eq ▸ habove))
  · intro huncovered above habove hbelow
    obtain ⟨_, _, other, hother, g', _, htree, habove⟩ := htrees.exists_of_mem_footprint habove
    have hx' : x ∈ g' :=
      htree.settles.mem_of_reachable ((htree.settles.reachable habove).trans hbelow.to_reflTransGen)
    rw [htree.footprint_eq] at habove hx'
    obtain rfl : c = other :=
      htrees.eq_of_mem_footprint hf (fun _ _ _ hid => hid.footprint_eq) hc hother hx hx'
    exact huncovered above habove hbelow

-- ---------------------------------------------------------------------------
-- What is below a replaced node does not matter
-- ---------------------------------------------------------------------------

theorem replacedSlots_congr {slots : List (Slot NodeId)} {first : Nat} {kids : List (Slot Node)}
    (h : SlotsAlong (Ordered s) slots (Node.numberSlots first kids) f) (hf : f.Nodup)
    (hsame : ∀ x ∈ f, Uncovered s find f x → find' x = find x)
    (hkids : ∀ slot ∈ kids, ∀ n ∈ slot.toList, ∀ {id id' : Nat} {g : List Nat}, Ordered s id (id', n) g →
      (∀ x ∈ g, Uncovered s find g x → find' x = find x) → n.replaced find' id' = n.replaced find id') :
    Node.replacedSlots find' first kids = Node.replacedSlots find first kids := by
  unfold Node.replacedSlots
  congr 1
  refine List.map_congr_left fun slot hslot => Slot.replace_congr fun c hc => ?_
  have hmem : c ∈ (Node.numberSlots first kids).flatMap Slot.toList :=
    List.mem_flatMap.mpr ⟨slot, hslot, hc⟩
  obtain ⟨_, _, g, hg, htree⟩ := (SlotsAlong.toList h).exists_of_mem_right hmem
  obtain ⟨⟨slot', hslot', hnodes⟩, -⟩ := Node.of_mem_numberSlots hslot
  refine hkids slot' hslot' c.2 (hnodes ▸ List.mem_map_of_mem hc) htree fun x hx huncovered => ?_
  refine hsame x (hg.subset hx) ?_
  rw [htree.footprint_eq] at hx huncovered
  exact (uncovered_iff_of_mem h hf hmem hx).mpr huncovered

/-- What stands for a node depends on nothing that is recorded below a recorded node. -/
theorem replaced_congr {n : Node} {id' : Nat} (h : Ordered s id (id', n) f)
    (hsame : ∀ x ∈ f, Uncovered s find f x → find' x = find x) :
    n.replaced find' id' = n.replaced find id' := by
  induction n using Node.induction generalizing id id' f with
  | step n ih =>
    obtain rfl : id' = id := h.number_eq
    have hid := hsame id' h.stored.id_mem h.uncovered
    rcases hfind : find id' with _ | nodes
    · rw [hfind] at hid
      have hnodup := h.nodup
      obtain ⟨below, rfl, -, hkids⟩ := h.below
      rw [Node.replaced_of_none hid, Node.replaced_of_none hfind]
      rw [replacedSlots_congr hkids (List.nodup_cons.mp hnodup).2 ?_ fun slot hslot n hn _ _ _ =>
        ih slot hslot n hn]
      intro x hx huncovered
      exact hsame x (List.mem_cons_of_mem _ hx) ((uncovered_cons hfind).mpr huncovered)
    · rw [hfind] at hid
      rw [Node.replaced_of_some hid, Node.replaced_of_some hfind]

/-- The same for a document. -/
theorem replaced_document_congr (d : Document)
    (hsame : ∀ x : Nat, (∀ above : Nat, TransGen (ofDocument d).Child above x → find above = none) →
      find' x = find x) : d.replaced find' = d.replaced find := by
  have h := ordered_ofDocument d
  rw [Document.replaced, Document.replaced, replacedSlots_congr h (List.nodup_range' ..) ?_
    fun _ _ _ _ => replaced_congr]
  intro x _ huncovered
  refine hsame x fun above hbelow => ?_
  -- What has a node below it is a number of the store.
  have habove : above < (ofDocument d).size := by
    obtain ⟨child, ⟨slot, hslot, _⟩, _⟩ := TransGen.head'_iff.mp hbelow
    by_contra hge
    have hnone : (ofDocument d).entries[above]? = none := Array.getElem?_eq_none (Nat.le_of_not_lt hge)
    rw [Store.slots, entry, hnone] at hslot
    cases hslot
  rw [size_ofDocument] at habove
  exact huncovered above (List.mem_range'_1.mpr ⟨Nat.zero_le _, by omega⟩) hbelow

end Store

namespace Replacements

open Store

variable {r waiting : Replacements} {s s₀ : Store} {p : Progress} {m : Mark} {depth : Nat} {id x : Nat}
  {c : Nat × Node} {f : List Nat} {keep : Nat → Bool}

-- ---------------------------------------------------------------------------
-- The records that count
-- ---------------------------------------------------------------------------

theorem find?_finish_restrict : ((p.finish id).left.restrict keep).find? x =
    if x = id then none else (p.left.restrict keep).find? x := by
  rw [find?_restrict, Progress.finish, find?_erase, find?_restrict]
  split <;> split <;> rfl

/-- Of the records `r`, those of the outermost numbers that are left. -/
def outermost (r : Replacements) (keep : Nat → Bool) : Ledger Progress where
  waiting p := p.left.restrict keep
  lasting := False
  Holds _ p := ∀ (x : Nat) (nodes : List Node), p.left.find? x = some nodes → r.find? x = some nodes
  holds_of_keepsKinds _ h := h

-- ---------------------------------------------------------------------------
-- One number
-- ---------------------------------------------------------------------------

/-- A tree that is where it was put in, its outermost records waiting. It has no more levels than
`depth`. -/
structure Intact (s₀ : Store) (r : Replacements) (depth : Nat) (s : Store) (waiting : Replacements)
    (id : NodeId) (c : Nat × Node) (f : List Nat) : Prop where
  ordered : Ordered s id c f
  original : Ordered s₀ id c f
  length_le : f.length ≤ depth
  find_eq : ∀ x ∈ f, Uncovered s₀ r.find? f x → waiting.find? x = r.find? x
  find_eq_none : ∀ x ∈ f, ¬ Uncovered s₀ r.find? f x → waiting.find? x = none

theorem local_intact : Local (Intact s₀ r depth) := by
  intro s waiting s' waiting' id c f _ hframe h
  refine ⟨⟨h.ordered.number_eq, h.ordered.footprint_eq, ?_⟩, h.original, h.length_le, ?_, ?_⟩
  · exact h.ordered.stored.of_entries hframe.size_le hframe.entry_eq
  · exact fun x hx huncovered => (hframe.find_eq x hx).trans (h.find_eq x hx huncovered)
  · exact fun x hx hcovered => (hframe.find_eq x hx).trans (h.find_eq_none x hx hcovered)

/-- The trees in slots are intact if their records are those of the slots. -/
theorem intact_of_ordered {slots slots₀ : List (Slot NodeId)} {kids : List (Slot (Nat × Node))}
    (h : SlotsAlong (Ordered s) slots kids f) (h₀ : SlotsAlong (Ordered s₀) slots₀ kids f) (hf : f.Nodup)
    (hdepth : f.length ≤ depth)
    (hfind : ∀ x ∈ f, Uncovered s₀ r.find? f x → waiting.find? x = r.find? x)
    (hnone : ∀ x ∈ f, ¬ Uncovered s₀ r.find? f x → waiting.find? x = none) :
    SlotsAlong (Intact s₀ r depth s waiting) slots kids f := by
  have horiginal : ∀ c ∈ kids.flatMap Slot.toList,
      Ordered s₀ c.1 c (List.range' c.1 c.2.size) ∧ c ∈ kids.flatMap Slot.toList := by
    intro c hc
    obtain ⟨_, _, g, _, hkid⟩ := (SlotsAlong.toList h₀).exists_of_mem_right hc
    have hstored := hkid.stored
    rw [hkid.footprint_eq, ← hkid.number_eq] at hstored
    exact ⟨⟨rfl, rfl, hstored⟩, hc⟩
  refine (SlotsAlong.and_right h horiginal).imp_of_sublist fun id c g hg ⟨hkid, horiginal, hc⟩ => ?_
  rw [← hkid.footprint_eq, hkid.number_eq] at horiginal
  refine ⟨hkid, horiginal, hg.length_le.trans hdepth, fun x hx huncovered => ?_, fun x hx hcovered => ?_⟩
  · rw [hkid.footprint_eq] at hx huncovered
    exact hfind x (hg.subset (hkid.footprint_eq ▸ hx))
      ((uncovered_iff_of_mem h₀ hf hc hx).mpr huncovered)
  · rw [hkid.footprint_eq] at hx hcovered
    exact hnone x (hg.subset (hkid.footprint_eq ▸ hx)) fun huncovered =>
      hcovered ((uncovered_iff_of_mem h₀ hf hc hx).mp huncovered)

/-- Putting in the record of a number takes what is below it out of the tree, records and all. -/
theorem finish_intact {nodes : List Node} (hready : Ready (outermost r keep) none f s p m)
    (h : Intact s₀ r depth s (p.left.restrict keep) id c f) (hfind : p.left.find? id = some nodes) :
    Mirrors (Visited (outermost r keep) none f (Placed c.2.family) s p m)
      (do
        modifyThe Progress (·.finish id)
        let family := (← getThe Store).family id
        (lift family nodes).mapM fun node => modifyGetThe Store (·.insert node))
      (pure (Node.steadOf r.find? c) : StateT Mark Id Stead) s p m := by
  have hrecorded : r.find? c.1 = some nodes := by
    rw [h.ordered.number_eq]
    exact hready.holds id nodes hfind
  rw [Node.steadOf, Node.replaced_of_some hrecorded, ← h.ordered.stored.family_eq]
  refine record_mirrors hready (fun x hx => ?_) (fun x hx => ?_) fun x nodes' hx => ?_
  · refine find?_finish_restrict.trans ?_
    split
    next => rfl
    next hne =>
      refine h.find_eq_none x hx fun huncovered => ?_
      have hreach := h.original.settles.reachable hx
      have hbelow := (Relation.reflTransGen_iff_eq_or_transGen.mp hreach).resolve_left hne
      have hnone := huncovered id h.original.stored.id_mem hbelow
      rw [← h.ordered.number_eq, hrecorded] at hnone
      cases hnone
  · refine find?_finish_restrict.trans (if_neg fun heq => hx ?_)
    rw [heq]
    exact h.ordered.stored.id_mem
  · refine hready.holds x nodes' ?_
    have hx : (p.left.erase id).find? x = some nodes' := hx
    rw [find?_erase] at hx
    split at hx
    · cases hx
    · exact hx

/-- Putting records in below a number that has none. -/
theorem descend_intact
    (ih : Visitor (outermost r keep) none (Intact s₀ r depth) (fun c => c.2.family) (applyNode depth)
      (fun c => (pure (Node.steadOf r.find? c) : StateT Mark Id Stead)))
    (hready : Ready (outermost r keep) none f s p m)
    (h : Intact s₀ r (depth + 1) s (p.left.restrict keep) id c f) (hfind : p.left.find? id = none) :
    Mirrors (Visited (outermost r keep) none f (Placed c.2.family) s p m)
      (do
        rewriteBelow (applyNode depth) id
        return [id])
      (pure (Node.steadOf r.find? c) : StateT Mark Id Stead) s p m := by
  have hwaiting : (p.left.restrict keep).find? id = none := by
    rw [find?_restrict, hfind]
    split <;> rfl
  have hrecorded : r.find? id = none :=
    (h.find_eq id h.ordered.stored.id_mem h.original.uncovered).symm.trans hwaiting
  have hnodup := h.ordered.nodup
  have hlayout := h.ordered.stored.layout_eq
  have hfamily := h.ordered.stored.family_eq
  obtain ⟨number, n⟩ := c
  obtain rfl : number = id := h.ordered.number_eq
  obtain ⟨below, rfl, hshell, hkids⟩ := h.ordered.below
  obtain ⟨_, hbelow, -, hkids₀⟩ := h.original.below
  obtain rfl := (List.cons.inj hbelow).2
  -- Without a record of its own the node covers none below it, so what is covered there stays so.
  have hintact : SlotsAlong (Intact s₀ r depth s (p.left.restrict keep)) (s.slots number)
      (Node.numberSlots (number + 1) n.children) below :=
    intact_of_ordered hkids hkids₀ (List.nodup_cons.mp hnodup).2 (Nat.le_of_succ_le_succ h.length_le)
      (fun x hx huncovered => h.find_eq x (List.mem_cons_of_mem _ hx)
        ((uncovered_cons hrecorded).mpr huncovered))
      (fun x hx hcovered => h.find_eq_none x (List.mem_cons_of_mem _ hx) fun huncovered =>
        hcovered ((uncovered_cons hrecorded).mp huncovered))
  have hfollow : Slot.AllFollow Node.family (s.node number).layout n.children := by
    rw [hlayout]
    exact Node.children_follow n
  have hfill : n.fill (Node.replacedSlots r.find? (number + 1) n.children) =
      (s.node number).fill (Node.replacedSlots r.find? (number + 1) n.children) :=
    (Node.fill_congr hshell (Node.replacedSlots_follow _ hfollow fun _ hplace =>
      Node.metadata_of_map_mem_layout hplace)).symm
  rw [Node.steadOf, Node.replaced_of_none hrecorded, hfill, ← hfamily]
  exact below_mirrors ih hready hwaiting hintact (Node.numberSlots_follow hfollow _)
    (Slot.mapM_mapM_pure_comp _ _)

/-- Putting records in at a number gives what stands for its node. -/
theorem applyNode_intact (depth : Nat) :
    Visitor (outermost r keep) none (Intact s₀ r depth) (fun c => c.2.family) (applyNode depth)
      (fun c => (pure (Node.steadOf r.find? c) : StateT Mark Id Stead)) := by
  induction depth with
  | zero =>
    refine ⟨local_intact, fun _ _ _ _ _ h => h.ordered.stored.family_eq, fun s p m id c f _ h => ?_⟩
    have hpos := List.length_pos_of_mem h.ordered.stored.id_mem
    have := h.length_le
    omega
  | succ depth ih =>
    refine ⟨local_intact, fun _ _ _ _ _ h => h.ordered.stored.family_eq, fun s p m id c f hready h => ?_⟩
    rw [applyNode]
    refine .getBeside ?_
    rcases hfind : p.left.find? id with _ | nodes
    · exact descend_intact ih hready h hfind
    · exact finish_intact hready h hfind

-- ---------------------------------------------------------------------------
-- All records of a document
-- ---------------------------------------------------------------------------

/-- Putting records in all over a document, with fuel for all levels. -/
theorem rewriteRoot_ofDocument (d : Document) (r : Replacements) (hdepth : (ofDocument d).size ≤ depth) :
    let out := ((rewriteRoot (applyNode depth)).run (ofDocument d)).run ⟨r, []⟩
    ∃ f, SlotsAlong (Stored out.1.2) out.1.2.root (Node.replacedSlots r.find? 0 d.children) f ∧ f.Nodup := by
  classical
  have hordered := ordered_ofDocument d
  rw [size_ofDocument] at hdepth
  set numbers := List.range' 0 (Node.sizeOfSlots d.children) with hnumbers
  have hnodup : numbers.Nodup := List.nodup_range' ..
  have hlt : ∀ x ∈ numbers, x < (ofDocument d).size := fun x hx => by
    rw [size_ofDocument]
    have := (List.mem_range'_1.mp hx).2
    omega
  -- Put in are the records of nodes that no other record covers; those below such a node go with it.
  let keep : Nat → Bool := fun x => decide (x ∈ numbers ∧ Uncovered (ofDocument d) r.find? numbers x)
  have hintact : SlotsAlong (Intact (ofDocument d) r depth (ofDocument d) (r.restrict keep))
      (ofDocument d).root (Node.numberSlots 0 d.children) numbers := by
    refine intact_of_ordered hordered hordered hnodup ?_ (fun x hx huncovered => ?_) fun x hx hcovered => ?_
    · rwa [hnumbers, List.length_range']
    · rw [find?_restrict, if_pos (decide_eq_true ⟨hx, huncovered⟩)]
    · rw [find?_restrict, if_neg fun hkeep => hcovered (of_decide_eq_true hkeep).2]
  have helsewhere : ∀ x : Nat, x ∉ numbers → (r.restrict keep).find? x = none := fun x hx => by
    rw [find?_restrict, if_neg fun hkeep => hx (of_decide_eq_true hkeep).1]
  have hready : Ready (outermost r keep) none numbers (ofDocument d) ⟨r, []⟩ none := {
    nodup := hnodup
    lt := hlt
    target_lt := fun _ hp => by cases hp
    target_not_mem := fun _ hp => by cases hp
    target_find := fun _ hp => by cases hp
    bounded := fun x hx => hlt x (by_contra fun hnot => hx (helsewhere x hnot))
    holds := fun _ _ hx => hx }
  exact (rewriteRoot_stored (applyNode_intact depth) hready hintact
    (Node.numberSlots_follow d.children_follow 0) (Slot.mapM_mapM_pure_comp _ _) id helsewhere).2.2

/-- Applying records to a document gives the document with these nodes replaced. -/
theorem toDocument_apply_ofDocument (d : Document) (r : Replacements) :
    (r.apply (ofDocument d)).toDocument = .ok (d.replaced r.find?) := by
  rw [apply, applyAll]
  by_cases hempty : r.isEmpty
  · have hfind : r.find? = fun _ => none := by
      funext x
      rw [find?, List.isEmpty_iff.mp hempty]
      rfl
    rw [if_pos hempty, hfind, Document.replaced, Node.replacedSlots_none]
    exact toDocument_stored (ofDocument_stored d) (List.nodup_range' ..) d.children_follow
  · rw [if_neg hempty]
    have hdepth : (ofDocument d).size ≤ (ofDocument d).size + r.growth + 1 := by omega
    obtain ⟨f, hstored, hf⟩ := rewriteRoot_ofDocument d r hdepth
    exact toDocument_stored hstored hf
      (Node.replacedSlots_follow 0 d.children_follow (by simp [Document.layout]))

/-- Whatever is recorded for nodes of a document, putting it in gives the document in which each of the
outermost of these nodes has given way to what was first recorded for it, fitted to its family and its
place. Any other node that is left stays what it was, and a tree without recorded nodes stays as a whole.
Records on nodes below a recorded node could as well be others, or none. -/
theorem toDocument_recordAll (d : Document) (records : List (NodeId × List Node)) :
    let find := fun id : Nat => records.lookup id
    ((recordAll records).apply (ofDocument d)).toDocument = .ok (d.replaced find) ∧
    (∀ (id : Nat) (n : Node), find id = none →
      ∃ m, n.replaced find id = .self m ∧ m.shell = n.shell) ∧
    (∀ (id : Nat) (n : Node), (∀ x, id ≤ x → x < id + n.size → find x = none) →
      n.replaced find id = .self n) ∧
    ∀ others : List (NodeId × List Node),
      (∀ id, (∀ above, TransGen (ofDocument d).Child above id → find above = none) →
        others.lookup id = find id) →
      ((recordAll others).apply (ofDocument d)).toDocument = .ok (d.replaced find) := by
  intro find
  have hfind : ∀ records : List (NodeId × List Node),
      (recordAll records).find? = fun id => records.lookup id := fun records =>
    funext fun _ => find?_recordAll records
  refine ⟨?_, fun _ _ => Node.exists_self_of_none, fun _ _ => Node.replaced_of_free, fun others hsame => ?_⟩
  · rw [toDocument_apply_ofDocument, hfind]
  · rw [toDocument_apply_ofDocument, hfind, replaced_document_congr d hsame]

-- The paragraph has the number 1. Its first record counts; that of the text below it does not.
example : ((recordAll [(2, []), (1, [.inline (.text "x"), .block .rule]), (1, [])]).apply
      (ofDocument {
        metadata := []
        blocks := [.blockQuote [.paragraph [.text "a"], .rule]] })).toDocument =
    .ok {
      metadata := []
      blocks := [.blockQuote [.plain [.text "x"], .rule, .rule]] } := by
  cbv

end Replacements

end Literate
