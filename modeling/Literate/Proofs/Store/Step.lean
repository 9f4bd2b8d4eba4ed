import Literate.Proofs.Coupling
import Literate.Proofs.Store.Settling

/-!
# Steps over a footprint

When a store is rewritten, numbers are visited one after another, each with all that is below it. A
`Step` over a footprint says what such a visit can do: it leaves entries elsewhere alone, keeps the
kinds of nodes, and records nothing except for the numbers it visits and for one number around them,
the target. What was at the footprint is at a new footprint afterwards, made of old entries and of
entries that were added.

Besides the store, something is kept that holds the records (`Ledger`): while a document is walked
records come in, while they are applied they go out.

Main results:

* `Step.append`: steps over two footprints without a common entry are a step over both.
* `Step.frame`: what is true of a footprint elsewhere stays true.
-/

namespace Literate.Store

/-- What is kept beside a store that is rewritten. -/
structure Ledger (ρ : Type) where
  /-- The records that are still to be put in. -/
  waiting : ρ → Replacements
  /-- Whether a record stays for good. Otherwise a visit has to use all records it finds. -/
  lasting : Prop
  /-- What is true all the time. -/
  Holds : Store → ρ → Prop
  holds_of_keepsKinds {s s' : Store} {q : ρ} : KeepsKinds s s' → Holds s q → Holds s' q

variable {ρ : Type} {L : Ledger ρ} {t : Option Nat} {s s' s'' : Store} {q q' q'' : ρ}
  {m m' m'' : Mark} {f f' g g' : List Nat}

/-- What a visit of a footprint starts from. The mark is the record of the target, if there is one. -/
structure Ready (L : Ledger ρ) (t : Option Nat) (f : List Nat) (s : Store) (q : ρ) (m : Mark) :
    Prop where
  nodup : f.Nodup
  lt : ∀ x ∈ f, x < s.size
  target_lt : ∀ p, t = some p → p < s.size
  target_not_mem : ∀ p, t = some p → p ∉ f
  target_find : ∀ p, t = some p → (L.waiting q).find? p = m
  bounded : ∀ x : Nat, (L.waiting q).find? x ≠ none → x < s.size
  holds : L.Holds s q

/-- What a visit of the footprint `f` does; what is left of it is at `f'`. -/
structure Step (L : Ledger ρ) (t : Option Nat) (f : List Nat) (s : Store) (q : ρ) (m : Mark)
    (s' : Store) (q' : ρ) (m' : Mark) (f' : List Nat) : Prop where
  kinds : KeepsKinds s s'
  root_eq : s'.root = s.root
  entry_eq : ∀ x < s.size, x ∉ f → s'.entry x = s.entry x
  find_eq : ∀ x : Nat, x ∉ f → t ≠ some x → (L.waiting q').find? x = (L.waiting q).find? x
  target_find : ∀ p, t = some p → (L.waiting q').find? p = m'
  mark_eq : f = [] → m' = m
  nodup : f'.Nodup
  within : ∀ x ∈ f', x < s'.size ∧ (x ∈ f ∨ s.size ≤ x)
  kept : ∀ x ∈ f, (L.waiting q').find? x ≠ none → x ∈ f' ∧ L.lasting
  holds : L.Holds s' q'

namespace Ready

theorem sublist (h : Ready L t f s q m) (hg : g.Sublist f) : Ready L t g s q m where
  nodup := h.nodup.sublist hg
  lt x hx := h.lt x (hg.subset hx)
  target_lt := h.target_lt
  target_not_mem p hp hmem := h.target_not_mem p hp (hg.subset hmem)
  target_find := h.target_find
  bounded := h.bounded
  holds := h.holds

theorem left (h : Ready L t (f ++ g) s q m) : Ready L t f s q m :=
  h.sublist (List.sublist_append_left ..)

theorem right (h : Ready L t (f ++ g) s q m) : Ready L t g s q m :=
  h.sublist (List.sublist_append_right ..)

theorem disjoint (h : Ready L t (f ++ g) s q m) : f.Disjoint g :=
  (List.nodup_append'.mp h.nodup).2.2

theorem of_keepsKinds (h : Ready L t f s q m) (hkinds : KeepsKinds s s') :
    Ready L t f s' q m where
  nodup := h.nodup
  lt x hx := Nat.lt_of_lt_of_le (h.lt x hx) hkinds.size_le
  target_lt p hp := Nat.lt_of_lt_of_le (h.target_lt p hp) hkinds.size_le
  target_not_mem := h.target_not_mem
  target_find := h.target_find
  bounded x hx := Nat.lt_of_lt_of_le (h.bounded x hx) hkinds.size_le
  holds := L.holds_of_keepsKinds hkinds h.holds

/-- The target is none of the numbers that are visited. -/
theorem target_ne (h : Ready L t f s q m) {x : Nat} (hx : x ∈ f) : t ≠ some x := by
  intro ht
  exact h.target_not_mem x ht hx

end Ready

namespace Step

theorem nil (h : Ready L t [] s q m) : Step L t [] s q m s q m [] where
  kinds := .refl s
  root_eq := rfl
  entry_eq _ _ _ := rfl
  find_eq _ _ _ := rfl
  target_find := h.target_find
  mark_eq _ := rfl
  nodup := List.nodup_nil
  within x hx := by simp at hx
  kept x hx := by simp at hx
  holds := h.holds

/-- What is true of entries that are not visited stays true. -/
theorem frame (h : Step L t f s q m s' q' m' f')
    (hg : ∀ x ∈ g, x < s.size ∧ x ∉ f ∧ t ≠ some x) :
    Frame s (L.waiting q) s' (L.waiting q') g where
  size_le := h.kinds.size_le
  entry_eq x hx := h.entry_eq x (hg x hx).1 (hg x hx).2.1
  find_eq x hx := h.find_eq x (hg x hx).2.1 (hg x hx).2.2

/-- After one part of a footprint was visited, the other part is as it was. -/
theorem frame_right (h : Step L t f s q m s' q' m' f') (hready : Ready L t (f ++ g) s q m) :
    Frame s (L.waiting q) s' (L.waiting q') g := by
  refine h.frame fun x hx => ⟨hready.right.lt x hx, ?_, hready.right.target_ne hx⟩
  intro hxf
  exact hready.disjoint hxf hx

theorem bounded (h : Step L t f s q m s' q' m' f') (hready : Ready L t f s q m) {x : Nat}
    (hx : (L.waiting q').find? x ≠ none) : x < s'.size := by
  have hle := h.kinds.size_le
  -- A record is for a number that was visited, for the target, or it was there before.
  by_cases hxf : x ∈ f
  · have := hready.lt x hxf
    omega
  by_cases ht : t = some x
  · have := hready.target_lt x ht
    omega
  rw [h.find_eq x hxf ht] at hx
  have := hready.bounded x hx
  omega

/-- An entry that is added next has no record. -/
theorem find_size_eq_none (h : Step L t f s q m s' q' m' f') (hready : Ready L t f s q m) :
    (L.waiting q').find? s'.size = none := by
  by_contra hsome
  exact Nat.lt_irrefl _ (h.bounded hready hsome)

/-- After one part of a footprint was visited, the other part can be. -/
theorem ready_right (h : Step L t f s q m s' q' m' f') (hready : Ready L t (f ++ g) s q m) :
    Ready L t g s' q' m' where
  nodup := hready.right.nodup
  lt _ hx := Nat.lt_of_lt_of_le (hready.right.lt _ hx) h.kinds.size_le
  target_lt p hp := Nat.lt_of_lt_of_le (hready.target_lt p hp) h.kinds.size_le
  target_not_mem := hready.right.target_not_mem
  target_find := h.target_find
  bounded _ hx := h.bounded hready.left hx
  holds := h.holds

/-- What is left of a footprint has nothing in common with entries that were not visited. -/
theorem not_mem_of_mem (h : Step L t f s q m s' q' m' f') (hready : Ready L t (f ++ g) s q m)
    {x : Nat} (hx : x ∈ f') : x ∉ g := by
  intro hxg
  rcases (h.within x hx).2 with hxf | hnew
  · exact hready.disjoint hxf hxg
  · have := hready.right.lt x hxg
    omega

/-- The target is not in what is left of a footprint. -/
theorem target_ne (h : Step L t f s q m s' q' m' f') (hready : Ready L t f s q m) {x : Nat}
    (hx : x ∈ f') : t ≠ some x := by
  rcases (h.within x hx).2 with hxf | hnew
  · exact hready.target_ne hxf
  · intro ht
    have := hready.target_lt x ht
    omega

/-- What is left of one part of a footprint is as it was after the other part was visited too. -/
theorem frame_left (h : Step L t f s q m s' q' m' f') (h' : Step L t g s' q' m' s'' q'' m'' g')
    (hready : Ready L t (f ++ g) s q m) : Frame s' (L.waiting q') s'' (L.waiting q'') f' :=
  h'.frame fun _ hx =>
    ⟨(h.within _ hx).1, h.not_mem_of_mem hready hx, h.target_ne hready.left hx⟩

/-- Visits of two parts are a visit of the whole. -/
theorem append (h : Step L t f s q m s' q' m' f') (h' : Step L t g s' q' m' s'' q'' m'' g')
    (hready : Ready L t (f ++ g) s q m) :
    Step L t (f ++ g) s q m s'' q'' m'' (f' ++ g') where
  kinds := h.kinds.trans h'.kinds
  root_eq := h'.root_eq.trans h.root_eq
  entry_eq x hx hnot := by
    rw [List.mem_append, not_or] at hnot
    rw [h'.entry_eq x (Nat.lt_of_lt_of_le hx h.kinds.size_le) hnot.2, h.entry_eq x hx hnot.1]
  find_eq x hnot ht := by
    rw [List.mem_append, not_or] at hnot
    rw [h'.find_eq x hnot.2 ht, h.find_eq x hnot.1 ht]
  target_find := h'.target_find
  mark_eq hnil := by
    obtain ⟨hf, hg⟩ := List.append_eq_nil_iff.mp hnil
    rw [h'.mark_eq hg, h.mark_eq hf]
  nodup := by
    refine List.nodup_append'.mpr ⟨h.nodup, h'.nodup, fun x hx hx' => ?_⟩
    -- What the second visit left is old, or was added after the first visit was over.
    rcases (h'.within x hx').2 with hxg | hnew
    · exact h.not_mem_of_mem hready hx hxg
    · have := (h.within x hx).1
      omega
  within x hx := by
    have hle := h.kinds.size_le
    have hle' := h'.kinds.size_le
    rcases List.mem_append.mp hx with hx | hx
    · obtain ⟨hlt, hxf | hnew⟩ := h.within x hx
      · exact ⟨by omega, .inl (List.mem_append_left _ hxf)⟩
      · exact ⟨by omega, .inr hnew⟩
    · obtain ⟨hlt, hxg | hnew⟩ := h'.within x hx
      · exact ⟨hlt, .inl (List.mem_append_right _ hxg)⟩
      · exact ⟨hlt, .inr (by omega)⟩
  kept x hx hfind := by
    -- A record in the first part was there when the second visit began.
    by_cases hxg : x ∈ g
    · obtain ⟨hmem, hlasting⟩ := h'.kept x hxg hfind
      exact ⟨List.mem_append_right _ hmem, hlasting⟩
    · have hxf : x ∈ f := (List.mem_append.mp hx).resolve_right hxg
      rw [h'.find_eq x hxg (hready.left.target_ne hxf)] at hfind
      obtain ⟨hmem, hlasting⟩ := h.kept x hxf hfind
      exact ⟨List.mem_append_left _ hmem, hlasting⟩
  holds := h'.holds

/-- Entries that are added belong to what is left of the footprint. -/
theorem extend (h : Step L t f s q m s' q' m' f') (hs : Extends s' s'') (hsub : f' ⊆ g)
    (hnodup : g.Nodup) (hg : ∀ x ∈ g, x ∈ f' ∨ s'.size ≤ x ∧ x < s''.size) :
    Step L t f s q m s'' q' m' g where
  kinds := h.kinds.trans hs.keepsKinds
  root_eq := hs.root_eq.trans h.root_eq
  entry_eq x hx hnot :=
    (hs.entry_eq x (Nat.lt_of_lt_of_le hx h.kinds.size_le)).trans (h.entry_eq x hx hnot)
  find_eq := h.find_eq
  target_find := h.target_find
  mark_eq := h.mark_eq
  nodup := hnodup
  within x hx := by
    have hle := h.kinds.size_le
    have hle' := hs.size_le
    rcases hg x hx with hx | ⟨hnew, hlt⟩
    · obtain ⟨hlt, hfrom⟩ := h.within x hx
      exact ⟨by omega, hfrom⟩
    · exact ⟨hlt, .inr (by omega)⟩
  kept x hx hfind := by
    obtain ⟨hmem, hlasting⟩ := h.kept x hx hfind
    exact ⟨hsub hmem, hlasting⟩
  holds := L.holds_of_keepsKinds hs.keepsKinds h.holds

/-- A visited node is changed without becoming another kind of node. -/
theorem setNode (h : Step L t f s q m s' q' m' f') {id : Nat} {n : Node} (hid : id ∈ f)
    (hfamily : n.family = s'.family id) (hlayout : n.layout = (s'.node id).layout) :
    Step L t f s q m (s'.setNode id n) q' m' f' where
  kinds := h.kinds.trans (keepsKinds_setNode hfamily hlayout)
  root_eq := h.root_eq
  entry_eq x hx hnot := by
    have hne : x ≠ id := by
      intro heq
      rw [heq] at hnot
      exact hnot hid
    rw [entry_setNode_of_ne hne, h.entry_eq x hx hnot]
  find_eq := h.find_eq
  target_find := h.target_find
  mark_eq := h.mark_eq
  nodup := h.nodup
  within x hx := by
    rw [size_setNode]
    exact h.within x hx
  kept := h.kept
  holds := L.holds_of_keepsKinds (keepsKinds_setNode hfamily hlayout) h.holds

/-- A footprint without records gives way to entries that are added. -/
theorem renew (h : Step L t f s q m s' q' m' f') (hs : Extends s' s'')
    (hnone : ∀ x ∈ f, (L.waiting q').find? x = none) (hnodup : g.Nodup)
    (hg : ∀ x ∈ g, s'.size ≤ x ∧ x < s''.size) : Step L t f s q m s'' q' m' g where
  kinds := h.kinds.trans hs.keepsKinds
  root_eq := hs.root_eq.trans h.root_eq
  entry_eq x hx hnot :=
    (hs.entry_eq x (Nat.lt_of_lt_of_le hx h.kinds.size_le)).trans (h.entry_eq x hx hnot)
  find_eq := h.find_eq
  target_find := h.target_find
  mark_eq := h.mark_eq
  nodup := hnodup
  within x hx := by
    have hle := h.kinds.size_le
    obtain ⟨hnew, hlt⟩ := hg x hx
    exact ⟨hlt, .inr (by omega)⟩
  kept x hx hfind := absurd (hnone x hx) hfind
  holds := L.holds_of_keepsKinds hs.keepsKinds h.holds

end Step

end Literate.Store
