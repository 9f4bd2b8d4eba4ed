import Literate.Proofs.Store.Placement
import Literate.Proofs.Store.Step

/-!
# Rewriting a store and rewriting a tree

A store is rewritten number by number by a visitor. The same can be done on trees, with a visitor that
takes a node and gives the stead of it. If the two visitors agree on single nodes (`Visitor`), they agree
on everything that is made of nodes: sequences, slots, all slots of a node, the containers of a
document. The walk over a document and the application of records are both rewritten by visitors.

Main results:

* `rewriteSlots_mirrors`: slots that are rewritten in the store come to what the slots of nodes are
  rewritten to.
* `rewriteBelow_mirrors`, `rewriteRoot_mirrors`: the same for the slots of an entry, which are taken out
  in the meantime, and for the containers of a document.
-/

namespace Literate.Store

variable {ρ : Type} {e : Type → Type} [Monad e] [LawfulMonad e] {α β γ δ : Type} {L : Ledger ρ}
  {t : Option Nat} {s s' : Store} {q q' : ρ} {m m' : Mark} {f g : List Nat}

/-- Whether a statement about a footprint depends on nothing else, apart from the kinds of nodes. -/
def Local (P : Store → Replacements → α → β → List Nat → Prop) : Prop :=
  ∀ ⦃s r s' r' a b f⦄, KeepsKinds s s' → Frame s r s' r' f → P s r a b f → P s' r' a b f

/-- What a visit of a footprint gives: it is a step, and its results are related where it leads. -/
def Visited (L : Ledger ρ) (t : Option Nat) (f : List Nat)
    (R : Store → Replacements → α → β → List Nat → Prop) (s : Store) (q : ρ) (m : Mark) :
    α → Store → ρ → β → Mark → Prop :=
  fun a s' q' b m' => ∃ f', Step L t f s q m s' q' m' f' ∧ R s' (L.waiting q') a b f'

theorem local_placed (family : Family) : Local (Placed family) :=
  fun _ _ _ _ _ _ _ _ hframe h => h.of_frame hframe

theorem local_entryPlaced : Local EntryPlaced :=
  fun _ _ _ _ _ _ _ _ hframe h => h.of_frame hframe

theorem local_slotPlaced (place : SlotKind × Family) : Local (SlotPlaced place) :=
  fun _ _ _ _ _ _ _ _ hframe h => h.of_frame hframe

-- ---------------------------------------------------------------------------
-- One after another
-- ---------------------------------------------------------------------------

/-- A visit of one part of a footprint, then of the other. -/
theorem cons_mirrors {R : Store → Replacements → β → δ → List Nat → Prop}
    {Rs Rs' : Store → Replacements → List β → List δ → List Nat → Prop} (hR : Local R)
    (hcons : ∀ ⦃s r b d f bs ds g⦄, R s r b d f → Rs s r bs ds g → Rs' s r (b :: bs) (d :: ds) (f ++ g))
    {x : StateT Store (StateT ρ e) β} {y : StateT Mark e δ} {xs : StateT Store (StateT ρ e) (List β)}
    {ys : StateT Mark e (List δ)} (hready : Ready L t (f ++ g) s q m)
    (hhead : Mirrors (Visited L t f R s q m) x y s q m)
    (htail : ∀ s' q' m', Ready L t g s' q' m' → KeepsKinds s s' →
      Frame s (L.waiting q) s' (L.waiting q') g →
      Mirrors (Visited L t g Rs s' q' m') xs ys s' q' m') :
    Mirrors (Visited L t (f ++ g) Rs' s q m) (do return (← x) :: (← xs))
      (do return (← y) :: (← ys)) s q m := by
  refine hhead.bind fun b s₁ q₁ d m₁ ⟨f', hstep, hrelated⟩ => ?_
  refine (htail s₁ q₁ m₁ (hstep.ready_right hready) hstep.kinds (hstep.frame_right hready)).map
    fun bs s₂ q₂ ds m₂ ⟨g', hstep', hrelated'⟩ => ?_
  refine ⟨f' ++ g', hstep.append hstep' hready, hcons ?_ hrelated'⟩
  -- The second visit leaves alone what the first one left.
  exact hR hstep'.kinds (hstep.frame_left hstep' hready) hrelated

/-- Visits of the members of a sequence. -/
theorem mapM_mirrors {P : Store → Replacements → α → γ → List Nat → Prop}
    {R : Store → Replacements → β → δ → List Nat → Prop} (hP : Local P) (hR : Local R)
    {F : α → StateT Store (StateT ρ e) β} {G : γ → StateT Mark e δ}
    (hvisit : ∀ ⦃s q m a c f⦄, Ready L t f s q m → P s (L.waiting q) a c f →
      Mirrors (Visited L t f R s q m) (F a) (G c) s q m)
    {as : List α} {cs : List γ} (h : Along (P s (L.waiting q)) as cs f) (hready : Ready L t f s q m) :
    Mirrors (Visited L t f (fun s r => Along (R s r)) s q m) (as.mapM F) (cs.mapM G) s q m := by
  -- The members that are visited later are met in another store, which differs elsewhere only.
  suffices ∀ s' q' m', KeepsKinds s s' → Frame s (L.waiting q) s' (L.waiting q') f →
      Ready L t f s' q' m' →
      Mirrors (Visited L t f (fun s r => Along (R s r)) s' q' m') (as.mapM F) (cs.mapM G) s' q' m' from
    this s q m (.refl s) (.refl s _ f) hready
  clear hready
  induction h with
  | nil =>
    intro s' q' m' _ _ hready
    rw [List.mapM_nil, List.mapM_nil]
    exact .pure ⟨[], .nil hready, .nil⟩
  | cons head _ ih =>
    intro s' q' m' hkinds hframe hready
    rw [List.mapM_cons, List.mapM_cons]
    refine cons_mirrors hR (fun _ _ _ _ _ _ _ _ hb hbs => .cons hb hbs) hready ?_ ?_
    · have hhead := hP hkinds (hframe.subset (List.subset_append_left ..)) head
      exact hvisit hready.left hhead
    · intro s₁ q₁ m₁ hready₁ hkinds₁ hframe₁
      exact ih s₁ q₁ m₁ (hkinds.trans hkinds₁)
        ((hframe.subset (List.subset_append_right ..)).trans hframe₁) hready₁

-- ---------------------------------------------------------------------------
-- Slots
-- ---------------------------------------------------------------------------

/-- A visitor of numbers and a visitor of nodes that agree: on numbers that are related to nodes by `P`,
the numbers that the one gives come to the steads that the other gives. -/
structure Visitor (L : Ledger ρ) (t : Option Nat) (P : Store → Replacements → NodeId → γ → List Nat → Prop)
    (family : γ → Family) (visit : NodeId → StateT Store (StateT ρ e) (List NodeId))
    (rewrite : γ → StateT Mark e Stead) : Prop where
  stable : Local P
  family_eq : ∀ ⦃s r id c f⦄, P s r id c f → s.family id = family c
  visits : ∀ ⦃s q m id c f⦄, Ready L t f s q m → P s (L.waiting q) id c f →
    Mirrors (Visited L t f (Placed (family c)) s q m) (visit id) (rewrite c) s q m

section

variable {P : Store → Replacements → NodeId → γ → List Nat → Prop} {family : γ → Family}
  {visit : NodeId → StateT Store (StateT ρ e) (List NodeId)} {rewrite : γ → StateT Mark e Stead}
  (hv : Visitor L t P family visit rewrite)

include hv

theorem single_mirrors {id : NodeId} {c : γ} (h : P s (L.waiting q) id c f)
    (hready : Ready L t f s q m) :
    Mirrors (Visited L t f (SlotPlaced (.single, family c)) s q m) (rewriteSlot visit (.single id))
      ((Slot.single c).mapM rewrite) s q m := by
  refine .get ?_
  rw [hv.family_eq h]
  refine (hv.visits hready h).bind fun ids s₁ q₁ st m₁ ⟨f₁, hstep, hplaced⟩ => ?_
  have hfree := hstep.find_size_eq_none hready
  obtain ⟨st', f', hgathered, hfamily, hnodes⟩ := collapse_settles hplaced hstep.nodup hfree
  refine .modifyGet (.pure ⟨f', ?_, ?_⟩)
  · exact hstep.extend hgathered.grown hgathered.subset hgathered.nodup hgathered.within
  · exact slotPlaced_single hgathered.settles hfamily hplaced.family_eq hnodes

/-- Visits of members that are all of one family. -/
theorem members_mirrors {ids : List NodeId} {cs : List γ} {place : Family}
    (h : Along (P s (L.waiting q)) ids cs f) (hcs : ∀ c ∈ cs, family c = place)
    (hready : Ready L t f s q m) :
    Mirrors (Visited L t f (fun s r => Along (Placed place s r)) s q m) (ids.mapM visit)
      (cs.mapM rewrite) s q m := by
  refine mapM_mirrors (P := fun s r id c f => P s r id c f ∧ family c = place) ?_
    (local_placed place) ?_ (h.and_right hcs) hready
  · intro s r s' r' id c f hkinds hframe hid
    exact ⟨hv.stable hkinds hframe hid.1, hid.2⟩
  · intro s q m id c f hready hid
    rw [← hid.2]
    exact hv.visits hready hid.1

/-- A visit of the value of an entry. -/
theorem entry_mirrors {entry : String × NodeId} {c : String × γ}
    (h : EntryAlong (P s (L.waiting q)) entry c f) (hfamily : family c.2 = .metadata)
    (hready : Ready L t f s q m) :
    Mirrors (Visited L t f EntryPlaced s q m)
      (do
        let ids ← visit entry.2
        let id ← modifyGet (·.collapseEntry ids)
        return id.map fun id => (entry.1, id))
      (do return (c.1, ← rewrite c.2)) s q m := by
  obtain ⟨key, value⟩ := h
  refine (hv.visits hready value).bind fun ids s₁ q₁ st m₁ ⟨f₁, hstep, hplaced⟩ => ?_
  rw [hfamily] at hplaced
  have hfree := hstep.find_size_eq_none hready
  refine .modifyGet (.pure ?_)
  obtain ⟨hnone, rfl, hnodes⟩ | ⟨id, s₂, st', f', hsome, hgathered, hmetadata, hnodes⟩ :=
    collapseEntry_settles key hplaced hstep.nodup hfree
  · rw [hnone]
    exact ⟨[], hstep, .gone hnodes⟩
  · rw [hsome]
    refine ⟨f', ?_, .stays hgathered.settles hmetadata hnodes⟩
    exact hstep.extend hgathered.grown hgathered.subset hgathered.nodup hgathered.within

theorem entries_mirrors {entries : List (String × NodeId)} {cs : List (String × γ)}
    (h : Along (EntryAlong (P s (L.waiting q))) entries cs f)
    (hcs : ∀ c ∈ cs, family c.2 = .metadata) (hready : Ready L t f s q m) :
    Mirrors (Visited L t f (fun s r => Along (EntryPlaced s r)) s q m)
      (entries.mapM fun (key, id) => do
        let ids ← visit id
        let id ← modifyGet (·.collapseEntry ids)
        return id.map fun id => (key, id))
      (cs.mapM fun (key, c) => do return (key, ← rewrite c)) s q m := by
  refine mapM_mirrors
    (P := fun s r entry c f => EntryAlong (P s r) entry c f ∧ family c.2 = .metadata) ?_
    local_entryPlaced ?_ (h.and_right hcs) hready
  · intro s r s' r' entry c f hkinds hframe hentry
    refine ⟨?_, hentry.2⟩
    obtain ⟨⟨key, value⟩, _⟩ := hentry
    exact .mk key (hv.stable hkinds hframe value)
  · intro s q m entry c f hready hentry
    exact entry_mirrors hv hentry.1 hentry.2 hready

/-- A slot that is rewritten in the store comes to what the slot of nodes is rewritten to. -/
theorem rewriteSlot_mirrors {slot : Slot NodeId} {c : Slot γ} {place : SlotKind × Family}
    (h : SlotAlong (P s (L.waiting q)) slot c f) (hfollows : c.Follows family place)
    (hplace : place.1 = .map → place.2 = .metadata) (hready : Ready L t f s q m) :
    Mirrors (Visited L t f (SlotPlaced place) s q m) (rewriteSlot visit slot) (c.mapM rewrite)
      s q m := by
  obtain ⟨kind, placeFamily⟩ := place
  obtain ⟨rfl, hall⟩ := hfollows
  cases h with
  | single child =>
    obtain rfl : family _ = placeFamily := hall _ (List.mem_singleton_self _)
    exact single_mirrors hv child hready
  | sequence children =>
    refine (members_mirrors hv children hall hready).map fun runs s' q' sts m' ⟨f', hstep, hruns⟩ => ?_
    exact ⟨f', hstep, slotPlaced_sequence hruns⟩
  | @map _ cs _ entries =>
    obtain rfl : placeFamily = .metadata := hplace rfl
    have hcs : ∀ c ∈ cs, family c.2 = .metadata := fun c hc => hall c.2 (List.mem_map_of_mem hc)
    refine (entries_mirrors hv entries hcs hready).map fun kept s' q' sts m' ⟨f', hstep, hkept⟩ => ?_
    exact ⟨f', hstep, slotPlaced_map hkept⟩

/-- Slots that are rewritten in the store come to what the slots of nodes are rewritten to. -/
theorem rewriteSlots_mirrors {slots : List (Slot NodeId)} {cs : List (Slot γ)}
    {layout : List (SlotKind × Family)} (h : SlotsAlong (P s (L.waiting q)) slots cs f)
    (hfollow : Slot.AllFollow family layout cs)
    (hlayout : ∀ place ∈ layout, place.1 = .map → place.2 = .metadata)
    (hready : Ready L t f s q m) :
    Mirrors (Visited L t f (SlotsPlaced layout) s q m) (slots.mapM (rewriteSlot visit))
      (cs.mapM (Slot.mapM rewrite)) s q m := by
  -- As for members: later slots are met in another store.
  suffices ∀ s' q' m', KeepsKinds s s' → Frame s (L.waiting q) s' (L.waiting q') f →
      Ready L t f s' q' m' →
      Mirrors (Visited L t f (SlotsPlaced layout) s' q' m') (slots.mapM (rewriteSlot visit))
        (cs.mapM (Slot.mapM rewrite)) s' q' m' from
    this s q m (.refl s) (.refl s _ f) hready
  clear hready
  induction h generalizing layout with
  | nil =>
    intro s' q' m' _ _ hready
    cases hfollow
    rw [List.mapM_nil, List.mapM_nil]
    exact .pure ⟨[], .nil hready, slotsPlaced_nil⟩
  | cons head _ ih =>
    intro s' q' m' hkinds hframe hready
    cases hfollow with
    | cons hfollows hfollow =>
      rw [List.mapM_cons, List.mapM_cons]
      refine cons_mirrors (local_slotPlaced _) (fun _ _ _ _ _ _ _ _ hslot hslots => hslot.cons hslots)
        hready ?_ ?_
      · have hframe₁ := hframe.subset (List.subset_append_left ..)
        refine rewriteSlot_mirrors hv (head.imp_of_sublist fun _ _ _ hg hid => ?_) hfollows
          (hlayout _ (List.mem_cons_self ..)) hready.left
        exact hv.stable hkinds (hframe₁.subset hg.subset) hid
      · intro s₁ q₁ m₁ hready₁ hkinds₁ hframe₁
        exact ih hfollow (fun place hp => hlayout place (List.mem_cons_of_mem _ hp)) s₁ q₁ m₁
          (hkinds.trans hkinds₁)
          ((hframe.subset (List.subset_append_right ..)).trans hframe₁) hready₁

-- ---------------------------------------------------------------------------
-- Entries and documents
-- ---------------------------------------------------------------------------

/-- Rewriting the slots of an entry, which stands without them in the meantime. -/
theorem rewriteBelow_mirrors {id : Nat} {cs : List (Slot γ)} {layout : List (SlotKind × Family)}
    (hnot : id ∉ f) (h : SlotsAlong (P s (L.waiting q)) (s.slots id) cs f)
    (hfollow : Slot.AllFollow family layout cs)
    (hlayout : ∀ place ∈ layout, place.1 = .map → place.2 = .metadata) (hready : Ready L t f s q m) :
    Mirrors
      (fun _ s' q' steads m' => ∃ (s₁ : Store) (slots : List (Slot NodeId)) (f' : List Nat),
        s' = s₁.setSlots id slots ∧ Step L t f (s.setSlots id []) q m s₁ q' m' f' ∧
          SlotsPlaced layout s₁ (L.waiting q') slots steads f')
      (rewriteBelow visit id) (cs.mapM (Slot.mapM rewrite)) s q m := by
  have hkinds := keepsKinds_setSlots s id []
  have hready₁ : Ready L t f (s.setSlots id []) q m := hready.of_keepsKinds hkinds
  have hframe : Frame s (L.waiting q) (s.setSlots id []) (L.waiting q) f :=
    frame_setSlots hnot
  have h₁ : SlotsAlong (P (s.setSlots id []) (L.waiting q)) (s.slots id) cs f :=
    SlotsAlong.imp_of_sublist h fun _ _ _ hg hc => hv.stable hkinds (hframe.subset hg.subset) hc
  refine .get (.modifyGet ?_)
  rw [← bind_pure (cs.mapM _)]
  refine (rewriteSlots_mirrors hv h₁ hfollow hlayout hready₁).bind
    fun slots s₁ q₁ steads m₁ ⟨f', hstep, hplaced⟩ => ?_
  exact .modify ⟨s₁, slots, f', rfl, hstep, hplaced⟩

/-- Rewriting the containers of a document. -/
theorem rewriteRoot_mirrors {cs : List (Slot γ)} {layout : List (SlotKind × Family)}
    (h : SlotsAlong (P s (L.waiting q)) s.root cs f) (hfollow : Slot.AllFollow family layout cs)
    (hlayout : ∀ place ∈ layout, place.1 = .map → place.2 = .metadata) (hready : Ready L t f s q m) :
    Mirrors
      (fun _ s' q' steads m' => ∃ (s₁ : Store) (slots : List (Slot NodeId)) (f' : List Nat),
        s' = s₁.setRoot slots ∧ Step L t f (s.setRoot []) q m s₁ q' m' f' ∧
          SlotsPlaced layout s₁ (L.waiting q') slots steads f')
      (rewriteRoot visit) (cs.mapM (Slot.mapM rewrite)) s q m := by
  have hkinds := keepsKinds_setRoot s []
  have hframe : Frame s (L.waiting q) (s.setRoot []) (L.waiting q) f := frame_setRoot
  have h₁ : SlotsAlong (P (s.setRoot []) (L.waiting q)) s.root cs f :=
    SlotsAlong.imp_of_sublist h fun _ _ _ hg hc => hv.stable hkinds (hframe.subset hg.subset) hc
  refine .get (.modifyGet ?_)
  rw [← bind_pure (cs.mapM _)]
  refine (rewriteSlots_mirrors hv h₁ hfollow hlayout (hready.of_keepsKinds hkinds)).bind
    fun slots s₁ q₁ steads m₁ ⟨f', hstep, hplaced⟩ => ?_
  exact .modify ⟨s₁, slots, f', rfl, hstep, hplaced⟩

end

/-- Putting nodes in one after another. -/
theorem run_mapM_insert (nodes : List Node) (s : Store) (q : ρ) :
    ((nodes.mapM fun node => modifyGetThe Store (·.insert node) :
      StateT Store (StateT ρ e) (List NodeId)).run s).run q = pure (s.insertAll nodes, q) := by
  induction nodes generalizing s with
  | nil =>
    rw [insertAll]
    rfl
  | cons node nodes ih =>
    have hinsert : ((modifyGetThe Store (·.insert node) :
        StateT Store (StateT ρ e) NodeId).run s).run q = pure (s.insert node, q) := rfl
    rw [List.mapM_cons, insertAll, StateT.run_bind, StateT.run_bind, hinsert, pure_bind,
      StateT.run_bind, StateT.run_bind, ih, pure_bind]
    rfl

/-- Nodes that are put in the place of a node come to its stead. -/
theorem insert_mirrors {R : List NodeId → Store → ρ → β → Mark → Prop} {nodes : List Node} {b : β}
    (h : R (s.insertAll nodes).1 (s.insertAll nodes).2 q b m) :
    Mirrors R (nodes.mapM fun node => modifyGetThe Store (·.insert node))
      (pure b : StateT Mark e β) s q m := by
  unfold Mirrors
  rw [run_mapM_insert]
  exact Coupled.pure h

-- ---------------------------------------------------------------------------
-- From the slots of an entry to the entry
-- ---------------------------------------------------------------------------

section

variable {T : Option Nat} {M M' : Mark} {id : Nat} {below below' : List Nat} {s₁ : Store}

/-- A visit of a number goes on with a visit of what is below it, with the target that it has or with
the number itself as the new target. -/
theorem Ready.enter (hready : Ready L T (id :: below) s q M)
    (hinner : t = some id ∧ m = (L.waiting q).find? id ∨ t = T ∧ m = M) : Ready L t below s q m := by
  have hbelow := hready.sublist (List.sublist_cons_self ..)
  rcases hinner with ⟨rfl, rfl⟩ | ⟨rfl, rfl⟩
  · exact {
      nodup := hbelow.nodup
      lt := hbelow.lt
      target_lt := fun p hp => by
        cases hp
        exact hready.lt id (List.mem_cons_self ..)
      target_not_mem := fun p hp => by
        cases hp
        exact (List.nodup_cons.mp hready.nodup).1
      target_find := fun p hp => by
        cases hp
        rfl
      bounded := hbelow.bounded
      holds := hbelow.holds }
  · exact hbelow

variable (hready : Ready L T (id :: below) s q M)
  (hstep : Step L t below (s.setSlots id []) q m s₁ q' m' below')

include hready hstep

theorem Step.not_mem_below : id ∉ below' := by
  intro hmem
  rcases (hstep.within id hmem).2 with hbelow | hnew
  · exact (List.nodup_cons.mp hready.nodup).1 hbelow
  · have := hready.lt id (List.mem_cons_self ..)
    rw [size_setSlots] at hnew
    omega

variable (slots : List (Slot NodeId))

/-- A step below an entry is a step over the entry and what is below it. -/
theorem Step.enclose (hinner : t = some id ∧ M' = M ∨ t = T ∧ M' = m')
    (hlasting : (L.waiting q').find? id ≠ none → L.lasting) :
    Step L T (id :: below) s q M (s₁.setSlots id slots) q' M' (id :: below') where
  kinds :=
    ((keepsKinds_setSlots s id []).trans hstep.kinds).trans (keepsKinds_setSlots s₁ id slots)
  root_eq := hstep.root_eq
  entry_eq x hx hnot := by
    rw [List.mem_cons, not_or] at hnot
    rw [entry_setSlots_of_ne hnot.1, hstep.entry_eq x (by simpa using hx) hnot.2,
      entry_setSlots_of_ne hnot.1]
  find_eq x hnot ht := by
    rw [List.mem_cons, not_or] at hnot
    refine hstep.find_eq x hnot.2 ?_
    rcases hinner with ⟨rfl, _⟩ | ⟨rfl, _⟩
    · exact fun heq => hnot.1 (Option.some.inj heq).symm
    · exact ht
  target_find p hp := by
    -- Where the entry was the target itself, nothing was recorded for the target around it.
    rcases hinner with ⟨rfl, rfl⟩ | ⟨rfl, rfl⟩
    · have hnot := hready.target_not_mem p hp
      rw [List.mem_cons, not_or] at hnot
      rw [hstep.find_eq p hnot.2 fun heq => hnot.1 (Option.some.inj heq).symm]
      exact hready.target_find p hp
    · exact hstep.target_find p hp
  mark_eq h := by cases h
  nodup := List.nodup_cons.mpr ⟨hstep.not_mem_below hready, hstep.nodup⟩
  within x hx := by
    have hle := hstep.kinds.size_le
    rw [size_setSlots] at hle ⊢
    rcases List.mem_cons.mp hx with rfl | hx
    · have := hready.lt x (List.mem_cons_self ..)
      exact ⟨by omega, .inl (List.mem_cons_self ..)⟩
    · obtain ⟨hlt, hfrom⟩ := hstep.within x hx
      rw [size_setSlots] at hfrom
      exact ⟨hlt, hfrom.imp (List.mem_cons_of_mem _) fun hnew => hnew⟩
  kept x hx hfind := by
    rcases List.mem_cons.mp hx with rfl | hx
    · exact ⟨List.mem_cons_self .., hlasting hfind⟩
    · obtain ⟨hmem, hlasting⟩ := hstep.kept x hx hfind
      exact ⟨List.mem_cons_of_mem _ hmem, hlasting⟩
  holds := L.holds_of_keepsKinds (keepsKinds_setSlots s₁ id slots) hstep.holds

theorem Step.node_enclosed : (s₁.setSlots id slots).node id = s.node id := by
  have hid := hready.lt id (List.mem_cons_self ..)
  have hnot := (List.nodup_cons.mp hready.nodup).1
  rw [node_setSlots, node_eq_of_entry (hstep.entry_eq id (by simpa using hid) hnot), node_setSlots]

theorem Step.family_enclosed : (s₁.setSlots id slots).family id = s.family id := by
  rw [Store.family, hstep.node_enclosed hready slots, Store.family]

theorem SlotsPlaced.enclose {steads : List (Slot Stead)} {layout : List (SlotKind × Family)}
    (hplaced : SlotsPlaced layout s₁ (L.waiting q') slots steads below') :
    SlotsPlaced layout (s₁.setSlots id slots) (L.waiting q') ((s₁.setSlots id slots).slots id) steads
      below' := by
  have hlt : id < s₁.size := by
    have := hready.lt id (List.mem_cons_self ..)
    have hle := hstep.kinds.size_le
    rw [size_setSlots] at hle
    omega
  rw [slots_setSlots_self hlt]
  exact hplaced.of_frame (frame_setSlots (hstep.not_mem_below hready))

end

end Literate.Store
