import Literate.Proofs.Document.Layout

/-!
# Relations with footprints

A statement about a number of a store, such as "the tree below `id` is `n`", speaks of some entries and
of no others: its *footprint*. A relation `R a b f` carries the footprint `f` as a list in reading order,
and `Along R` puts the footprints of a sequence one after another. As soon as the whole list has no
duplicates, the statements about the members are about different entries, and a change that keeps to
one footprint leaves all the others true.

`SlotAlong R` is the same for the members of a slot. Slots are read off member by member, so what is
needed of them is mostly a fact about `Slot.toList` (`SlotAlong.toList`).
-/

namespace Literate

variable {α β γ : Type} {R R' : α → β → List Nat → Prop}

/-- Members related one by one, their footprints one after another. -/
inductive Along (R : α → β → List Nat → Prop) : List α → List β → List Nat → Prop where
  | nil : Along R [] [] []
  | cons {a : α} {b : β} {as : List α} {bs : List β} {f g : List Nat} (head : R a b f)
      (tail : Along R as bs g) : Along R (a :: as) (b :: bs) (f ++ g)

/-- Entries with the same key and related values. -/
inductive EntryAlong (R : α → β → List Nat → Prop) :
    String × α → String × β → List Nat → Prop where
  | mk {a : α} {b : β} {f : List Nat} (key : String) (value : R a b f) :
      EntryAlong R (key, a) (key, b) f

/-- Slots of the same kind with related members. -/
inductive SlotAlong (R : α → β → List Nat → Prop) : Slot α → Slot β → List Nat → Prop where
  | single {a : α} {b : β} {f : List Nat} (child : R a b f) : SlotAlong R (.single a) (.single b) f
  | sequence {as : List α} {bs : List β} {f : List Nat} (children : Along R as bs f) :
      SlotAlong R (.sequence as) (.sequence bs) f
  | map {as : List (String × α)} {bs : List (String × β)} {f : List Nat}
      (entries : Along (EntryAlong R) as bs f) : SlotAlong R (.map as) (.map bs) f

namespace Along

theorem singleton {a : α} {b : β} {f : List Nat} (h : R a b f) : Along R [a] [b] f := by
  have := cons h nil
  rwa [List.append_nil] at this

theorem length_eq {as : List α} {bs : List β} {f : List Nat} (h : Along R as bs f) :
    as.length = bs.length := by
  induction h with
  | nil => rfl
  | cons _ _ ih => rw [List.length_cons, List.length_cons, ih]

theorem of_singleton {a : α} {bs : List β} {f : List Nat} (h : Along R [a] bs f) :
    ∃ b, bs = [b] ∧ R a b f := by
  cases h with
  | cons head tail =>
    cases tail with
    | nil => exact ⟨_, rfl, by rwa [List.append_nil]⟩

theorem append {as as' : List α} {bs bs' : List β} {f g : List Nat} (h : Along R as bs f)
    (h' : Along R as' bs' g) : Along R (as ++ as') (bs ++ bs') (f ++ g) := by
  induction h with
  | nil => exact h'
  | cons head _ ih =>
    rw [List.append_assoc]
    exact cons head ih

/-- Members may be related otherwise, as long as it follows where they are. -/
theorem imp_of_sublist {as : List α} {bs : List β} {f : List Nat} (h : Along R as bs f)
    (himp : ∀ a b g, g.Sublist f → R a b g → R' a b g) : Along R' as bs f := by
  induction h with
  | nil => exact nil
  | cons head _ ih =>
    refine cons (himp _ _ _ (List.sublist_append_left ..) head) (ih fun a b g hg => ?_)
    exact himp a b g (hg.trans (List.sublist_append_right ..))

theorem imp {as : List α} {bs : List β} {f : List Nat} (h : Along R as bs f)
    (himp : ∀ a b g, R a b g → R' a b g) : Along R' as bs f :=
  h.imp_of_sublist fun a b g _ => himp a b g

/-- What is known of the members themselves. -/
theorem and_right {φ : β → Prop} {as : List α} {bs : List β} {f : List Nat} (h : Along R as bs f)
    (hbs : ∀ b ∈ bs, φ b) : Along (fun a b g => R a b g ∧ φ b) as bs f := by
  induction h with
  | nil => exact nil
  | cons head _ ih =>
    refine cons ⟨head, hbs _ (List.mem_cons_self ..)⟩ (ih fun b hb => hbs b ?_)
    exact List.mem_cons_of_mem _ hb

theorem exists_of_mem_left {as : List α} {bs : List β} {f : List Nat} (h : Along R as bs f) {a : α}
    (ha : a ∈ as) : ∃ b ∈ bs, ∃ g, g.Sublist f ∧ R a b g := by
  induction h with
  | nil => simp at ha
  | cons head _ ih =>
    rcases List.mem_cons.mp ha with rfl | ha
    · exact ⟨_, List.mem_cons_self .., _, List.sublist_append_left .., head⟩
    · obtain ⟨b, hb, g, hg, hR⟩ := ih ha
      exact ⟨b, List.mem_cons_of_mem _ hb, g, hg.trans (List.sublist_append_right ..), hR⟩

theorem exists_of_mem_right {as : List α} {bs : List β} {f : List Nat} (h : Along R as bs f) {b : β}
    (hb : b ∈ bs) : ∃ a ∈ as, ∃ g, g.Sublist f ∧ R a b g := by
  induction h with
  | nil => simp at hb
  | cons head _ ih =>
    rcases List.mem_cons.mp hb with rfl | hb
    · exact ⟨_, List.mem_cons_self .., _, List.sublist_append_left .., head⟩
    · obtain ⟨a, ha, g, hg, hR⟩ := ih hb
      exact ⟨a, List.mem_cons_of_mem _ ha, g, hg.trans (List.sublist_append_right ..), hR⟩

/-- Every entry of the footprint belongs to some member. -/
theorem exists_of_mem_footprint {as : List α} {bs : List β} {f : List Nat} (h : Along R as bs f)
    {x : Nat} (hx : x ∈ f) : ∃ a ∈ as, ∃ b ∈ bs, ∃ g, g.Sublist f ∧ R a b g ∧ x ∈ g := by
  induction h with
  | nil => simp at hx
  | cons head _ ih =>
    rcases List.mem_append.mp hx with hx | hx
    · exact ⟨_, List.mem_cons_self .., _, List.mem_cons_self .., _, List.sublist_append_left ..,
        head, hx⟩
    · obtain ⟨a, ha, b, hb, g, hg, hR, hxg⟩ := ih hx
      exact ⟨a, List.mem_cons_of_mem _ ha, b, List.mem_cons_of_mem _ hb, g,
        hg.trans (List.sublist_append_right ..), hR, hxg⟩

/-- A number belongs to one member only. -/
theorem eq_of_mem_footprint {as : List α} {bs : List β} {φ : β → List Nat} (h : Along R as bs f)
    (hf : f.Nodup) (hφ : ∀ a b g, R a b g → g = φ b) {b b' : β} (hb : b ∈ bs) (hb' : b' ∈ bs) {x : Nat}
    (hx : x ∈ φ b) (hx' : x ∈ φ b') : b = b' := by
  induction h with
  | nil => cases hb
  | @cons a first _ rest g _ head tail ih =>
    obtain ⟨_, htail, hdisjoint⟩ := List.nodup_append'.mp hf
    have hhead : ∀ {d}, x ∈ φ first → d ∈ rest → x ∈ φ d → first = d := fun hx hd hxd => by
      obtain ⟨_, _, _, hsub, hd⟩ := tail.exists_of_mem_right hd
      rw [← hφ _ _ _ head] at hx
      rw [← hφ _ _ _ hd] at hxd
      exact absurd (hsub.subset hxd) (hdisjoint hx)
    rcases List.mem_cons.mp hb with rfl | hrest <;> rcases List.mem_cons.mp hb' with rfl | hrest'
    · rfl
    · exact hhead hx hrest' hx'
    · exact (hhead hx' hrest hx).symm
    · exact ih htail hrest hrest'

/-- The length of a footprint, member by member. -/
theorem length_footprint {as : List α} {bs : List β} {size : β → Nat} (h : Along R as bs f)
    (hsize : ∀ a b g, R a b g → g.length = size b) : f.length = (bs.map size).sum := by
  induction h with
  | nil => rfl
  | cons head _ ih => rw [List.length_append, hsize _ _ _ head, ih, List.map_cons, List.sum_cons]

theorem map_right {δ : Type} {R' : α → δ → List Nat → Prop} {as : List α} {bs : List β} {f : List Nat}
    {φ : β → δ} (h : Along R as bs f) (himp : ∀ a b g, R a b g → R' a (φ b) g) :
    Along R' as (bs.map φ) f := by
  induction h with
  | nil => exact nil
  | cons head _ ih => exact cons (himp _ _ _ head) ih

end Along

namespace SlotAlong

variable {slot : Slot α} {slot' : Slot β} {f : List Nat}

/-- The values of related entries. -/
theorem values {as : List (String × α)} {bs : List (String × β)} (h : Along (EntryAlong R) as bs f) :
    Along R (as.map (·.2)) (bs.map (·.2)) f := by
  induction h with
  | nil => exact .nil
  | cons head _ ih =>
    cases head with
    | mk _ value => exact .cons value ih

/-- Slots are related member by member. -/
theorem toList (h : SlotAlong R slot slot' f) : Along R slot.toList slot'.toList f := by
  cases h with
  | single child => exact .singleton child
  | sequence children => exact children
  | map entries => exact values entries

theorem kind_eq (h : SlotAlong R slot slot' f) : slot.kind = slot'.kind := by
  cases h <;> rfl

theorem imp_of_sublist (h : SlotAlong R slot slot' f)
    (himp : ∀ a b g, g.Sublist f → R a b g → R' a b g) : SlotAlong R' slot slot' f := by
  cases h with
  | single child => exact .single (himp _ _ _ (List.Sublist.refl _) child)
  | sequence children => exact .sequence (children.imp_of_sublist himp)
  | map entries =>
    refine .map (entries.imp_of_sublist fun a b g hg hentry => ?_)
    cases hentry with
    | mk key value => exact .mk key (himp _ _ _ hg value)

theorem imp (h : SlotAlong R slot slot' f) (himp : ∀ a b g, R a b g → R' a b g) :
    SlotAlong R' slot slot' f :=
  h.imp_of_sublist fun a b g _ => himp a b g

theorem and_right {φ : β → Prop} (h : SlotAlong R slot slot' f) (hφ : ∀ b ∈ slot'.toList, φ b) :
    SlotAlong (fun a b g => R a b g ∧ φ b) slot slot' f := by
  cases h with
  | single child => exact .single ⟨child, hφ _ (List.mem_singleton_self _)⟩
  | sequence children => exact .sequence (children.and_right hφ)
  | @map _ entries _ halong =>
    have hvalues : ∀ b ∈ entries, φ b.2 := fun b hb => hφ b.2 (List.mem_map_of_mem hb)
    refine .map ((halong.and_right hvalues).imp fun a b g ⟨hentry, hb⟩ => ?_)
    cases hentry with
    | mk key value => exact .mk key ⟨value, hb⟩

/-- Related slots follow the same places if related members are of the same families. -/
theorem follows_of_follows {family : α → Family} {family' : β → Family} {place : SlotKind × Family}
    (h : SlotAlong R slot slot' f) (hfamily : ∀ a b g, R a b g → family a = family' b)
    (hslot : slot'.Follows family' place) : slot.Follows family place := by
  refine ⟨h.kind_eq.trans hslot.1, fun a ha => ?_⟩
  obtain ⟨b, hb, g, -, hR⟩ := h.toList.exists_of_mem_left ha
  rw [hfamily a b g hR]
  exact hslot.2 b hb

end SlotAlong

/-- Slots related one by one. -/
abbrev SlotsAlong (R : α → β → List Nat → Prop) : List (Slot α) → List (Slot β) → List Nat → Prop :=
  Along (SlotAlong R)

namespace SlotsAlong

variable {slots : List (Slot α)} {slots' : List (Slot β)} {f : List Nat}

theorem imp_of_sublist (h : SlotsAlong R slots slots' f)
    (himp : ∀ a b g, g.Sublist f → R a b g → R' a b g) : SlotsAlong R' slots slots' f :=
  Along.imp_of_sublist h fun _ _ _ hg hslot =>
    hslot.imp_of_sublist fun a b _ hk => himp a b _ (hk.trans hg)

theorem imp (h : SlotsAlong R slots slots' f) (himp : ∀ a b g, R a b g → R' a b g) :
    SlotsAlong R' slots slots' f :=
  h.imp_of_sublist fun a b g _ => himp a b g

theorem and_right {φ : β → Prop} (h : SlotsAlong R slots slots' f)
    (hφ : ∀ b ∈ slots'.flatMap Slot.toList, φ b) :
    SlotsAlong (fun a b g => R a b g ∧ φ b) slots slots' f := by
  have hslots := Along.and_right (φ := fun slot => ∀ b ∈ slot.toList, φ b) h fun slot hslot b hb =>
    hφ b (List.mem_flatMap.mpr ⟨slot, hslot, hb⟩)
  exact Along.imp hslots fun _ _ _ ⟨hslot, hb⟩ => hslot.and_right hb

/-- The members of all slots, one by one. -/
theorem toList (h : SlotsAlong R slots slots' f) :
    Along R (slots.flatMap Slot.toList) (slots'.flatMap Slot.toList) f := by
  induction h with
  | nil => exact .nil
  | cons head _ ih => exact head.toList.append ih

theorem follow_of_follow {family : α → Family} {family' : β → Family}
    {layout : List (SlotKind × Family)} (h : SlotsAlong R slots slots' f)
    (hfamily : ∀ a b g, R a b g → family a = family' b)
    (hslots : Slot.AllFollow family' layout slots') : Slot.AllFollow family layout slots := by
  induction h generalizing layout with
  | nil =>
    cases hslots
    exact .nil
  | cons head _ ih =>
    cases hslots with
    | cons hplace hrest => exact .cons (head.follows_of_follows hfamily hplace) (ih hrest)

end SlotsAlong

end Literate
