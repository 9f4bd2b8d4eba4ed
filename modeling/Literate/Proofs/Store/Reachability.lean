import Literate.Proofs.Store.Settling

/-!
# Reachability

The numbers of a store are the vertices of a graph: `Child s p c` says that `c` is in a slot of `p`. The
footprint of what a number comes to is the set of numbers that can be reached from it.

Main results:

* `Settles.reachable`, `Settles.mem_of_reachable`: a footprint holds exactly what can be reached.
* `Settles.inline_of_transGen`: what is properly below a node that bears inlines is inline.
-/

namespace Literate.Store

open Relation (ReflTransGen TransGen)

/-- Whether a number is in a slot of another. -/
def Child (s : Store) (p c : NodeId) : Prop :=
  ∃ slot ∈ s.slots p, c ∈ slot.toList

/-- Whether a number can be reached from the containers of the document. -/
def Reachable (s : Store) (x : NodeId) : Prop :=
  ∃ top ∈ s.root.flatMap Slot.toList, ReflTransGen (Child s) top x

variable {s : Store} {r : Replacements} {id x y : Nat} {st : Stead} {f : List Nat}

namespace Settles

theorem reachable (h : Settles s r id st f) (hx : x ∈ f) : ReflTransGen (Child s) id x := by
  induction h using Settles.induction with
  | step id st steads below _ _ _ _ ih =>
    rcases List.mem_cons.mp hx with rfl | hx
    · exact .refl
    · obtain ⟨c, hc, _, _, g, _, ⟨_, hreach⟩, hxg⟩ := ih.toList.exists_of_mem_footprint hx
      obtain ⟨slot, hslot, hc⟩ := List.mem_flatMap.mp hc
      exact .head ⟨slot, hslot, hc⟩ (hreach hxg)

/-- Every number of a footprint comes to something, on a part of the footprint. -/
theorem exists_of_mem (h : Settles s r id st f) (hx : x ∈ f) :
    ∃ st' g, Settles s r x st' g ∧ g ⊆ f := by
  induction h using Settles.induction with
  | step id st steads below lt follow stead_eq children ih =>
    rcases List.mem_cons.mp hx with rfl | hx
    · exact ⟨st, _, .intro steads lt follow stead_eq children, List.Subset.refl _⟩
    · obtain ⟨_, _, _, _, g, hg, ⟨_, hexists⟩, hxg⟩ := ih.toList.exists_of_mem_footprint hx
      obtain ⟨st', g', hsettles, hg'⟩ := hexists hxg
      refine ⟨st', g', hsettles, List.Subset.trans hg' ?_⟩
      exact List.subset_cons_of_subset _ hg.subset

/-- The children of a number come to something. -/
theorem exists_of_child (h : Settles s r id st f) (hy : Child s id y) :
    ∃ st' g, Settles s r y st' g ∧ g ⊆ f := by
  cases h with
  | intro steads _ _ _ children =>
    obtain ⟨slot, hslot, hy⟩ := hy
    obtain ⟨_, _, g, hg, hsettles⟩ := (SlotsAlong.toList children).exists_of_mem_left
      (List.mem_flatMap.mpr ⟨slot, hslot, hy⟩)
    exact ⟨_, g, hsettles, List.subset_cons_of_subset _ hg.subset⟩

theorem mem_of_reachable (h : Settles s r id st f) (hx : ReflTransGen (Child s) id x) : x ∈ f := by
  induction hx with
  | refl => exact h.id_mem
  | tail _ hchild ih =>
    obtain ⟨_, g, hsettles, hg⟩ := h.exists_of_mem ih
    obtain ⟨_, g', hsettles', hg'⟩ := hsettles.exists_of_child hchild
    exact hg (hg' hsettles'.id_mem)

/-- What is properly below a node that bears inlines is inline. -/
theorem inline_of_transGen (h : Settles s r id st f) (hid : Bears s id)
    (hx : TransGen (Child s) id x) : s.family x = .inline := by
  obtain ⟨c, hchild, hreach⟩ := TransGen.head'_iff.mp hx
  obtain ⟨_, g, hc, _⟩ := h.exists_of_child hchild
  obtain ⟨slot, hslot, hmem⟩ := hchild
  have hinline : s.family c = .inline := by
    obtain ⟨place, hplace, hfollows⟩ := h.slots_follow.mem hslot
    rw [hid.layout_eq, List.mem_singleton] at hplace
    rw [hfollows.2 c hmem, hplace]
  rcases hc.inline_below (fun place => Node.inline_of_mem_layout hinline)
    (hc.mem_of_reachable hreach) with rfl | hx
  · exact hinline
  · exact hx

end Settles

/-- Everything in the footprint of the containers can be reached. -/
theorem reachable_of_settle {steads : List (Slot Stead)}
    (h : SlotsAlong (Settles s r) s.root steads f) (hx : x ∈ f) : s.Reachable x := by
  obtain ⟨top, htop, _, _, g, _, hsettles, hxg⟩ := (SlotsAlong.toList h).exists_of_mem_footprint hx
  exact ⟨top, htop, hsettles.reachable hxg⟩

end Literate.Store
