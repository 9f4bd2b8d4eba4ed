import Literate.Proofs.Store.Building
import Literate.Proofs.Store.Rewriting

/-!
# Applying records

Records are put in from the root downwards. A record whose node cannot be reached any more would be
dropped, either because its node is gone or because it stands below another node with a record. If only
nodes that bear inlines have records (`Bears`), the second cannot happen: all that is below such a node
is inline.

Main results:

* `applyNode_visitor`: putting records in at a number gives what the number comes to, and uses all
  records at the number and below it.
* `applyAll_settled`: if every record is for a number that can be reached, each is put in exactly once,
  none is left, and the containers hold the trees that they came to.
-/

namespace Literate.Replacements

open Store

variable {r : Replacements} {s : Store} {p : Progress} {m : Mark} {depth : Nat}
  {f : List Nat}

/-- What is true while the records `r` are put in: those that are left are for nodes that bear inlines,
and together with those that were put in they are the records from the start. -/
structure Underway (r : Replacements) (s : Store) (p : Progress) : Prop where
  bears : ∀ x : Nat, p.left.find? x ≠ none → s.Bears x
  nodup : p.left.targets.Nodup
  perm : r.targets.Perm (p.done ++ p.left.targets)

theorem Underway.finish (h : Underway r s p) {id : Nat} (hid : p.left.find? id ≠ none) :
    Underway r s (p.finish id) where
  bears x hx := by
    refine h.bears x fun hnone => hx ?_
    rw [Progress.finish, find?_erase, hnone]
    split <;> rfl
  nodup := nodup_erase h.nodup
  perm := by
    have hleft := targets_perm_erase h.nodup hid
    refine h.perm.trans ((hleft.append_left p.done).trans ?_)
    exact List.perm_middle

theorem Underway.of_keepsKinds {s' : Store} (h : Underway r s p) (hkinds : s.KeepsKinds s') :
    Underway r s' p where
  bears x hx := (h.bears x hx).of_keepsKinds hkinds
  nodup := h.nodup
  perm := h.perm

/-- The records that are left while the records `r` are put in. -/
def applying (r : Replacements) : Ledger Progress where
  waiting p := p.left
  lasting := False
  Holds := Underway r
  holds_of_keepsKinds hkinds h := h.of_keepsKinds hkinds

/-- Numbers with a footprint no longer than the fuel. -/
def SettlesWithin (depth : Nat) (s : Store) (r : Replacements) (id : NodeId) (st : Stead)
    (f : List Nat) : Prop :=
  Settles s r id st f ∧ f.length ≤ depth

theorem local_settlesWithin (depth : Nat) : Local (SettlesWithin depth) :=
  fun _ _ _ _ _ _ _ _ hframe h => ⟨h.1.of_frame hframe, h.2⟩

/-- Putting in the record of a number, after which no record waits at the number or below it. -/
theorem record_mirrors {L : Ledger Progress} {id : Nat} {nodes : List Node} (hready : Ready L none f s p m)
    (hnone : ∀ x ∈ f, (L.waiting (p.finish id)).find? x = none)
    (hsame : ∀ x : Nat, x ∉ f → (L.waiting (p.finish id)).find? x = (L.waiting p).find? x)
    (hholds : L.Holds s (p.finish id)) :
    Mirrors (Visited L none f (Placed (s.family id)) s p m)
      (do
        modifyThe Progress (·.finish id)
        let family := (← getThe Store).family id
        (lift family nodes).mapM fun node => modifyGetThe Store (·.insert node))
      (pure ⟨s.family id, lift (s.family id) nodes⟩ : StateT Mark Id Stead) s p m := by
  have hfamily : ∀ n ∈ lift (s.family id) nodes, n.family = s.family id := fun n hn => lift_family hn
  -- Nothing waits for the numbers that are given out next.
  have hfree : ∀ x : Nat, s.size ≤ x → (L.waiting (p.finish id)).find? x = none := by
    intro x hx
    by_cases hxf : x ∈ f
    · exact hnone x hxf
    · rw [hsame x hxf]
      by_contra hx'
      have := hready.bounded x hx'
      omega
  obtain ⟨hextends, hsize, hplaced⟩ := placed_insertAll hfamily hfree
  refine .modifyBeside (.get (insert_mirrors ⟨_, ?_, hplaced⟩))
  exact {
    kinds := hextends.keepsKinds
    root_eq := hextends.root_eq
    entry_eq := fun x hx _ => hextends.entry_eq x hx
    find_eq := fun x hx _ => hsame x hx
    target_find := fun _ ht => by cases ht
    mark_eq := fun _ => rfl
    nodup := List.nodup_range' ..
    within := fun x hx => by
      rw [List.mem_range'_1] at hx
      rw [hsize]
      exact ⟨hx.2, .inr hx.1⟩
    kept := fun x hx hfind => absurd (hnone x hx) hfind
    holds := L.holds_of_keepsKinds hextends.keepsKinds hholds }

/-- Putting records in below a number at which none waits. -/
theorem below_mirrors {γ : Type} {L : Ledger Progress}
    {P : Store → Replacements → NodeId → γ → List Nat → Prop} {family : γ → Family}
    {rewrite : γ → StateT Mark Id Stead} {id : Nat} {below : List Nat} {cs : List (Slot γ)}
    {steads : List (Slot Stead)} (ih : Visitor L none P family (applyNode depth) rewrite)
    (hready : Ready L none (id :: below) s p m) (hfind : (L.waiting p).find? id = none)
    (h : SlotsAlong (P s (L.waiting p)) (s.slots id) cs below)
    (hfollow : Slot.AllFollow family (s.node id).layout cs)
    (hsteads : cs.mapM (Slot.mapM rewrite) = pure steads) :
    Mirrors (Visited L none (id :: below) (Placed (s.family id)) s p m)
      (do
        rewriteBelow (applyNode depth) id
        return [id])
      (pure ⟨s.family id, [(s.node id).fill (steads.map Slot.fit)]⟩ : StateT Mark Id Stead) s p m := by
  have hnot := (List.nodup_cons.mp hready.nodup).1
  have hbelow := rewriteBelow_mirrors ih hnot h hfollow
    (fun _ hplace => Node.metadata_of_map_mem_layout hplace)
    (hready.sublist (List.sublist_cons_self ..))
  rw [hsteads] at hbelow
  refine hbelow.of_pure.bind (g := fun _ => pure _) fun _ s' p' steads' m' hdone => ?_
  obtain ⟨⟨s₁, slots, below', rfl, hstep, hplaced⟩, rfl, rfl⟩ := hdone
  have hid : (L.waiting p').find? id = none := (hstep.find_eq id hnot (by simp)).trans hfind
  have hstep' := hstep.enclose hready slots (.inr ⟨rfl, rfl⟩) fun h => absurd hid h
  have hnode := hstep.node_enclosed hready slots
  refine .pure ⟨id :: below', hstep', ?_⟩
  have hplaced := SlotsPlaced.enclose hready hstep slots hplaced
  rw [← hnode] at hplaced
  have hsettles := settles_of_placed (hstep'.within id (List.mem_cons_self ..)).1 hplaced
  rw [steadAt_of_none hid, hnode, hstep.family_enclosed hready slots] at hsettles
  exact .of_settles hsettles rfl

/-- Putting in the record of a number whose node bears inlines. -/
theorem finish_mirrors {id : Nat} {st : Stead} {nodes : List Node}
    (hready : Ready (applying r) none f s p m) (h : Settles s p.left id st f)
    (hfind : p.left.find? id = some nodes) :
    Mirrors (Visited (applying r) none f (Placed st.family) s p m)
      (do
        modifyThe Progress (·.finish id)
        let family := (← getThe Store).family id
        (lift family nodes).mapM fun node => modifyGetThe Store (·.insert node))
      (pure st : StateT Mark Id Stead) s p m := by
  have hunderway : Underway r s p := hready.holds
  have hsome : p.left.find? id ≠ none := by
    rw [hfind]
    exact Option.some_ne_none nodes
  rw [← h.family_eq, h.stead_eq_of_some hfind]
  refine record_mirrors hready (fun x hx => ?_) (fun x hx => ?_) (hunderway.finish hsome)
  · -- What is below a node that bears inlines is inline, and no inline has a record.
    by_contra hx'
    have hbears := (hunderway.finish hsome).bears x hx'
    rcases h.inline_below_bears (hunderway.bears id hsome) hx with rfl | hinline
    · exact hx' (by show (p.left.erase x).find? x = none; rw [find?_erase, if_pos rfl])
    · exact hbears.family_ne hinline
  · have hne : x ≠ id := by
      intro heq
      rw [heq] at hx
      exact hx h.id_mem
    show (p.left.erase id).find? x = _
    rw [find?_erase, if_neg hne]
    rfl

/-- Putting records in below a number that has none. -/
theorem descend_mirrors {id : Nat} {st : Stead}
    (ih : Visitor (applying r) none (SettlesWithin depth) Stead.family (applyNode depth)
      (pure : Stead → StateT Mark Id Stead))
    (hready : Ready (applying r) none f s p m) (h : Settles s p.left id st f)
    (hlength : f.length ≤ depth + 1) (hfind : p.left.find? id = none) :
    Mirrors (Visited (applying r) none f (Placed st.family) s p m)
      (do
        rewriteBelow (applyNode depth) id
        return [id])
      (pure st : StateT Mark Id Stead) s p m := by
  cases h with
  | @intro _ _ below steads lt follow stead_eq children =>
    have hwithin : SlotsAlong (SettlesWithin depth s p.left) (s.slots id) steads below := by
      refine SlotsAlong.imp_of_sublist children fun c d g hg hc => ⟨hc, ?_⟩
      have hle := hg.length_le
      simp only [List.length_cons] at hlength
      omega
    rw [stead_eq, steadAt_of_none hfind]
    exact below_mirrors ih hready hfind hwithin follow (Slot.mapM_mapM_pure _)

/-- Putting records in at a number gives what the number comes to. -/
theorem applyNode_visitor (depth : Nat) :
    Visitor (applying r) none (SettlesWithin depth) Stead.family (applyNode depth)
      (pure : Stead → StateT Mark Id Stead) := by
  induction depth with
  | zero =>
    refine ⟨local_settlesWithin 0, fun _ _ _ _ _ h => h.1.family_eq, fun s p m id st f _ h => ?_⟩
    have hpos := List.length_pos_of_mem h.1.id_mem
    have := h.2
    omega
  | succ depth ih =>
    refine ⟨local_settlesWithin _, fun _ _ _ _ _ h => h.1.family_eq, fun s p m id st f hready h => ?_⟩
    obtain ⟨hsettles, hlength⟩ := h
    rw [applyNode]
    refine .getBeside ?_
    rcases hfind : p.left.find? id with _ | nodes
    · exact descend_mirrors ih hready hsettles hlength hfind
    · exact finish_mirrors hready hsettles hfind

-- ---------------------------------------------------------------------------
-- All records of a store
-- ---------------------------------------------------------------------------

/-- Putting records in from the root downwards, if no record stays and none waits where nothing is
visited: none is left waiting, and the containers hold the trees that they came to. -/
theorem rewriteRoot_stored {γ : Type} {L : Ledger Progress}
    {P : Store → Replacements → NodeId → γ → List Nat → Prop} {family : γ → Family}
    {rewrite : γ → StateT Mark Id Stead} {cs : List (Slot γ)} {steads : List (Slot Stead)}
    (hv : Visitor L none P family (applyNode depth) rewrite) (hready : Ready L none f s p m)
    (h : SlotsAlong (P s (L.waiting p)) s.root cs f)
    (hfollow : Slot.AllFollow family Document.layout cs)
    (hsteads : cs.mapM (Slot.mapM rewrite) = pure steads) (hlasting : ¬ L.lasting)
    (helsewhere : ∀ x : Nat, x ∉ f → (L.waiting p).find? x = none) :
    let out := ((rewriteRoot (applyNode depth)).run s).run p
    L.Holds out.1.2 out.2 ∧ (∀ x : Nat, (L.waiting out.2).find? x = none) ∧
      ∃ f', SlotsAlong (Stored out.1.2) out.1.2.root (steads.map Slot.fit) f' ∧ f'.Nodup := by
  have hmirrors := rewriteRoot_mirrors hv h hfollow (by simp [Document.layout]) hready
  rw [hsteads] at hmirrors
  intro out
  obtain ⟨s₁, slots, f', hout, hstep, settled, halong, _, hfit⟩ := coupled_id.mp hmirrors
  have hout : out.1.2 = s₁.setRoot slots := hout
  have hstep : Step L none f (s.setRoot []) p m s₁ out.2 m f' := hstep
  have hfit : settled.map Slot.fit = steads.map Slot.fit := hfit
  -- A record that is left would be for a number that was visited, and visits use all records they find.
  have hnone : ∀ x : Nat, (L.waiting out.2).find? x = none := by
    intro x
    by_contra hx
    by_cases hxf : x ∈ f
    · exact hlasting (hstep.kept x hxf hx).2
    · rw [hstep.find_eq x hxf (by simp)] at hx
      exact hx (helsewhere x hxf)
  refine ⟨?_, hnone, f', ?_, hstep.nodup⟩
  · rw [hout]
    exact L.holds_of_keepsKinds (keepsKinds_setRoot s₁ slots) hstep.holds
  · rw [hout, ← hfit, root_setRoot]
    refine stored_of_settle (SlotsAlong.imp halong fun _ _ _ hid => hid.of_frame ?_) hnone
    exact frame_setRoot

/-- How a store and its records end up: all records `r` were put in, each once, and the containers hold
the trees `kids`. -/
structure Applied (r : Replacements) (kids : List (Slot Node)) (s : Store) (p : Progress) : Prop where
  left_eq : p.left = .empty
  perm : r.targets.Perm p.done
  stored : ∃ f, SlotsAlong (Stored s) s.root kids f ∧ f.Nodup

variable {steads : List (Slot Stead)} (h : SlotsAlong (Settles s r) s.root steads f) (hf : f.Nodup)
  (hfollow : Slot.AllFollow Stead.family Document.layout steads) (hunderway : Underway r s ⟨r, []⟩)
  (hreached : ∀ x : Nat, r.find? x ≠ none → x ∈ f)

include h hf hfollow hunderway hreached

/-- Putting records in from the root downwards, with fuel for all levels. -/
theorem rewriteRoot_applied (hdepth : s.size ≤ depth) :
    let out := ((rewriteRoot (applyNode depth)).run s).run ⟨r, []⟩
    Applied r (steads.map Slot.fit) out.1.2 out.2 := by
  have hwithin : SlotsAlong (SettlesWithin depth s r) s.root steads f := by
    refine SlotsAlong.imp_of_sublist h fun c d g hg hc => ⟨hc, ?_⟩
    have hle := length_le_size_of_nodup (hf.sublist hg) fun x hx => hc.lt_of_mem hx
    omega
  have hready : Ready (applying r) none f s ⟨r, []⟩ none := {
    nodup := hf
    lt := fun x hx => by
      obtain ⟨_, _, _, _, g, _, hid, hxg⟩ := (SlotsAlong.toList h).exists_of_mem_footprint hx
      exact hid.lt_of_mem hxg
    target_lt := fun _ hp => by cases hp
    target_not_mem := fun _ hp => by cases hp
    target_find := fun _ hp => by cases hp
    bounded := fun x hx => (hunderway.bears x hx).lt
    holds := hunderway }
  -- All records are for nodes that are reached, so none is left when these have been visited.
  have helsewhere : ∀ x : Nat, x ∉ f → r.find? x = none := by
    intro x hx
    by_contra hsome
    exact hx (hreached x hsome)
  obtain ⟨hholds, hnone, hstored⟩ := rewriteRoot_stored (applyNode_visitor depth) hready hwithin hfollow
    (Slot.mapM_mapM_pure steads) id helsewhere
  intro out
  have hleft : out.2.left = .empty := eq_empty_of_find?_eq_none hnone
  have hperm : r.targets.Perm (out.2.done ++ out.2.left.targets) := hholds.perm
  rw [hleft, show (empty : Replacements).targets = [] from rfl, List.append_nil] at hperm
  exact ⟨hleft, hperm, hstored⟩

/-- Applying records puts in each of them once, none is left, and the containers hold the trees that
they came to. -/
theorem applyAll_settled :
    Applied r (steads.map Slot.fit) (r.applyAll s).1 (r.applyAll s).2 := by
  rw [applyAll]
  by_cases hempty : r.isEmpty
  · rw [if_pos hempty]
    have hr : r = .empty := by
      have hentries : r.entries = [] := List.isEmpty_iff.mp hempty
      rw [← show (⟨r.entries⟩ : Replacements) = r from rfl, hentries]
      rfl
    subst hr
    exact ⟨rfl, .refl [], f, stored_of_settle h fun _ => rfl, hf⟩
  · rw [if_neg hempty]
    exact rewriteRoot_applied h hf hfollow hunderway hreached (by omega)

/-- A store is built into the document that its containers come to. -/
theorem toDocument_apply :
    (r.apply s).toDocument = .ok (Document.filled (steads.map Slot.fit)) := by
  obtain ⟨_, _, f', hstored, hnodup⟩ := applyAll_settled h hf hfollow hunderway hreached
  refine toDocument_stored hstored hnodup (Slot.fit_follow hfollow ?_ (by simp [Document.layout]))
  intro slot hslot st hst
  exact fits_of_settle h st (List.mem_flatMap.mpr ⟨slot, hslot, hst⟩)

end Literate.Replacements
