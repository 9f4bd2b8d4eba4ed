import Literate.Proofs.Execution.Dispatch
import Literate.Proofs.Execution.OnePass
import Literate.Proofs.Store.Rewriting

/-!
# The walk and the pass

The walk over a store does, number by number, what the pass over the document does node by node. What
the pass marks for a node, the walk records for the number of that node; the marked node is replaced by
the pass right away, by the walk never, but the number comes to the same stead (`Settles`), as its record
is put in later.

Main results:

* `visit_visitor`: visiting a number gives what the pass makes of the node that is stored there.
* `Deferred.Sound`: whatever is recorded is recorded for a node that is no inline but holds inlines, and
  nothing is lost but second records.
-/

namespace Literate

open Store

/-- What is true of the records all through a walk. -/
structure Deferred.Sound (s : Store) (q : Deferred) : Prop where
  bears : ∀ x : Nat, q.waiting.find? x ≠ none → s.Bears x
  nodup : q.waiting.targets.Nodup
  late : ∀ loss ∈ q.lost, ∃ (target : Nat) (nodes : List Node),
    loss = .late target nodes ∧ q.waiting.find? target ≠ none

namespace Deferred

variable {s s' : Store} {q : Deferred} {target x : Nat} {nodes : List Node}

theorem sound_empty (s : Store) : Sound s .empty where
  bears _ h := absurd rfl h
  nodup := List.nodup_nil
  late loss h := by simp [empty] at h

theorem Sound.of_keepsKinds (h : Sound s q) (hkinds : KeepsKinds s s') : Sound s' q where
  bears x hx := (h.bears x hx).of_keepsKinds hkinds
  nodup := h.nodup
  late := h.late

theorem add_of_none (h : q.waiting.find? target = none) :
    q.add (some target) nodes = ⟨(q.waiting.record target nodes).2, q.lost⟩ := by
  rw [add, Replacements.record_of_none h]

theorem add_of_ne_none (h : q.waiting.find? target ≠ none) :
    q.add (some target) nodes =
      ⟨(q.waiting.record target nodes).2, .late target nodes :: q.lost⟩ := by
  rw [add, Replacements.record_of_ne_none h]

theorem waiting_add : (q.add (some target) nodes).waiting = (q.waiting.record target nodes).2 := by
  by_cases h : q.waiting.find? target = none
  · rw [add_of_none h]
  · rw [add_of_ne_none h]

theorem find?_add : (q.add (some target) nodes).waiting.find? x =
    if x = target then (q.waiting.find? target).or (some nodes) else q.waiting.find? x := by
  rw [waiting_add, Replacements.find?_record]

/-- A record can be made for a node that is no inline but holds inlines. -/
theorem Sound.add (h : Sound s q) (htarget : s.Bears target) : Sound s (q.add (some target) nodes) where
  bears x hx := by
    rw [find?_add] at hx
    by_cases heq : x = target
    · rwa [heq]
    · rw [if_neg heq] at hx
      exact h.bears x hx
  nodup := by
    rw [waiting_add]
    exact Replacements.nodup_record h.nodup
  late loss hloss := by
    -- A record that is there stays, so what was late before is so still.
    have hstays : ∀ x, q.waiting.find? x ≠ none →
        (q.add (some target) nodes).waiting.find? x ≠ none := by
      intro x hx
      rw [find?_add]
      by_cases heq : x = target
      · rw [if_pos heq, ← heq]
        exact fun hnone => hx (Option.or_eq_none_iff.mp hnone).1
      · rwa [if_neg heq]
    by_cases hnone : q.waiting.find? target = none
    · rw [add_of_none hnone] at hloss
      obtain ⟨x, recorded, rfl, hx⟩ := h.late loss hloss
      exact ⟨x, recorded, rfl, hstays x hx⟩
    · rw [add_of_ne_none hnone] at hloss
      rcases List.mem_cons.mp hloss with rfl | hloss
      · exact ⟨target, nodes, rfl, hstays target hnone⟩
      · obtain ⟨x, recorded, rfl, hx⟩ := h.late loss hloss
        exact ⟨x, recorded, rfl, hstays x hx⟩

end Deferred

namespace Walk

-- ---------------------------------------------------------------------------
-- Numbers that the walk comes to
-- ---------------------------------------------------------------------------

/-- The records of a walk stay until its end. -/
def records : Ledger Deferred where
  waiting q := q.waiting
  lasting := True
  Holds := Deferred.Sound
  holds_of_keepsKinds hkinds h := h.of_keepsKinds hkinds

/-- The nearest of the nodes around that is no inline. -/
def target (around : List NodeId) (s : Store) : Option NodeId :=
  around.find? fun id => s.family id ≠ .inline

variable {depth : Nat} {around : List NodeId} {t : Option Nat} {s s' : Store} {r : Replacements}
  {q q' : Deferred} {m own : Mark} {id : Nat} {n : Node} {f below below' : List Nat}
  {kids : List (Slot Stead)}

theorem target_of_keepsKinds (hkinds : KeepsKinds s s') (hlt : ∀ x ∈ around, x < s.size) :
    target around s' = target around s :=
  List.find?_congr fun x hx => by rw [hkinds.family_eq x (hlt x hx)]

/-- The target of what is below a number. -/
def inner (t : Option Nat) (id : Nat) (family : Family) : Option Nat :=
  if family = .inline then t else some id

/-- What is true of a number when the walk comes to it: the tree below it is still as it was, and if it
is an inline, some node around it bears inlines. -/
structure Awaits (depth : Nat) (around : List NodeId) (t : Option Nat) (s : Store) (r : Replacements)
    (id : NodeId) (n : Node) (f : List Nat) : Prop where
  stored : Stored s id n f
  length_le : f.length ≤ depth
  unrecorded : ∀ x ∈ f, r.find? x = none
  around_lt : ∀ x ∈ around, x < s.size
  target_eq : target around s = t
  bears : n.family = .inline → ∃ p, t = some p ∧ s.Bears p

theorem local_awaits : Local (Awaits depth around t) := fun s r s' r' id n f hkinds hframe h => {
  stored := h.stored.of_entries hkinds.size_le hframe.entry_eq
  length_le := h.length_le
  unrecorded := fun x hx => by
    rw [hframe.find_eq x hx]
    exact h.unrecorded x hx
  around_lt := fun x hx => Nat.lt_of_lt_of_le (h.around_lt x hx) hkinds.size_le
  target_eq := (target_of_keepsKinds hkinds h.around_lt).trans h.target_eq
  bears := fun hinline => by
    obtain ⟨p, hp, hbears⟩ := h.bears hinline
    exact ⟨p, hp, hbears.of_keepsKinds hkinds⟩ }

/-- An inline below a number has a node around it that bears inlines. -/
theorem Awaits.bears_inner (h : Awaits depth around t s r id n f) {child : Node}
    (hchild : child ∈ n.children.flatMap Slot.toList) (hinline : child.family = .inline) :
    ∃ p, inner t id n.family = some p ∧ s.Bears p := by
  by_cases hn : n.family = .inline
  · rw [inner, if_pos hn]
    exact h.bears hn
  · obtain ⟨slot, hslot, hchild⟩ := List.mem_flatMap.mp hchild
    obtain ⟨place, hplace, hfollows⟩ := (Node.children_follow n).mem hslot
    have hholds : place.2 = .inline := by rw [← hfollows.2 child hchild, hinline]
    rw [inner, if_neg hn]
    refine ⟨id, rfl, h.stored.lt_of_mem h.stored.id_mem, ?_, ?_⟩
    · rwa [h.stored.family_eq]
    · rw [h.stored.layout_eq]
      exact Node.layout_of_holds_inline hn hplace hholds

theorem Awaits.target_inner (h : Awaits depth around t s r id n f) :
    target (id :: around) s = inner t id n.family := by
  unfold target inner
  by_cases hn : n.family = .inline
  · rw [List.find?_cons_of_neg (by simpa [h.stored.family_eq] using hn), if_pos hn]
    exact h.target_eq
  · rw [List.find?_cons_of_pos (by simpa [h.stored.family_eq] using hn), if_neg hn]

/-- The walk comes to the children of a number next. -/
theorem Awaits.children (h : Awaits (depth + 1) around t s r id n (id :: below)) :
    SlotsAlong (Awaits depth (id :: around) (inner t id n.family) s r) (s.slots id) n.children
      below := by
  have hstored := h.stored
  cases hstored with
  | intro lt _ children =>
    have hbears := SlotsAlong.and_right children fun child hchild => h.bears_inner hchild
    refine SlotsAlong.imp_of_sublist hbears fun c m g hg ⟨hc, hinner⟩ => ?_
    exact {
      stored := hc
      length_le := by
        have hle := hg.length_le
        have hlength := h.length_le
        simp only [List.length_cons] at hlength
        omega
      unrecorded := fun x hx => h.unrecorded x (List.mem_cons_of_mem _ (hg.subset hx))
      around_lt := fun x hx => by
        rcases List.mem_cons.mp hx with rfl | hx
        · exact lt
        · exact h.around_lt x hx
      target_eq := h.target_inner
      bears := hinner }

-- ---------------------------------------------------------------------------
-- Between the children of a node and the node
-- ---------------------------------------------------------------------------

open OnePass (settled settled_inline settled_none settled_some)

/-- What holds when all below a number was visited, and before its node is dispatched: `kids` are the
steads of the children, `own` is the mark that the children left. -/
structure Reached (t : Option Nat) (s : Store) (q : Deferred) (m : Mark) (id : Nat) (n : Node)
    (below : List Nat) (s' : Store) (q' : Deferred) (own : Mark) (kids : List (Slot Stead))
    (below' : List Nat) : Prop where
  ready : Ready records t (id :: below) s q m
  step : Step records t (id :: below) s q m s' q' (if n.family = .inline then own else m)
    (id :: below')
  shell_eq : (s'.node id).shell = n.shell
  placed : SlotsPlaced n.layout s' q'.waiting (s'.slots id) kids below'
  find_eq : q'.waiting.find? id = if n.family = .inline then none else own
  childless : n.layout = [] → below = [] ∧ (n.family ≠ .inline → own = none)

/-- What the visit of a number and the work on its node come to. -/
def Done (t : Option Nat) (s : Store) (q : Deferred) (m : Mark) (id : Nat) (n : Node)
    (below : List Nat) (ids : List NodeId) (s' : Store) (q' : Deferred) (nodes : List Node)
    (own : Mark) : Prop :=
  Visited records t (id :: below) (Placed n.family) s q m ids s' q' (settled n.family nodes own)
    (if n.family = .inline then own else m)

/-- A number comes to what the pass makes of its node. -/
theorem steadAt_eq_settled {kids : List (Slot Node)} {family : Family} {y : Node}
    (hfind : r.find? id = if family = .inline then none else own) (hfamily : s.family id = family)
    (hfill : (s.node id).fill kids = y) : s.steadAt r id kids = settled family [y] own := by
  by_cases hinline : family = .inline
  · rw [if_pos hinline] at hfind
    rw [steadAt_of_none hfind, hfamily, hfill, hinline, settled_inline]
  · rw [if_neg hinline] at hfind
    cases own with
    | none => rw [steadAt_of_none hfind, hfamily, hfill, settled_none]
    | some recorded => rw [steadAt_of_some hfind, hfamily, settled_some hinline]

/-- Recording nodes for the target is part of a visit. -/
theorem step_add {f' : List Nat} {m' : Mark} {p : Nat} {nodes : List Node}
    (h : Step records t f s q m s' q' m' f') (hready : Ready records t f s q m) (hp : t = some p)
    (hbears : s'.Bears p) (hf : f ≠ []) :
    Step records t f s q m s' (q'.add (some p) nodes) (m'.or (some nodes)) f' where
  kinds := h.kinds
  root_eq := h.root_eq
  entry_eq := h.entry_eq
  find_eq x hx ht := by
    have hne : x ≠ p := by
      intro heq
      rw [heq] at ht
      exact ht hp
    refine Eq.trans ?_ (h.find_eq x hx ht)
    show (q'.add (some p) nodes).waiting.find? x = _
    rw [Deferred.find?_add, if_neg hne]
    rfl
  target_find p' hp' := by
    obtain rfl : p = p' := Option.some.inj (hp.symm.trans hp')
    show (q'.add (some p) nodes).waiting.find? p = _
    rw [Deferred.find?_add, if_pos rfl, ← h.target_find p hp]
    rfl
  mark_eq hnil := absurd hnil hf
  nodup := h.nodup
  within := h.within
  kept x hx hfind := by
    -- The target is no node that is still to come, so what is kept for those is what was kept.
    have hne : x ≠ p := by
      intro heq
      rw [heq] at hx
      exact hready.target_ne hx hp
    have hadd : (q'.add (some p) nodes).waiting.find? x = q'.waiting.find? x := by
      rw [Deferred.find?_add, if_neg hne]
    refine h.kept x hx fun hnone => hfind ?_
    exact hadd.trans hnone
  holds := h.holds.add hbears

namespace Reached

variable (h : Reached t s q m id n below s' q' own kids below')

include h

theorem lt : id < s'.size :=
  (h.step.within id (List.mem_cons_self ..)).1

theorem family_eq : s'.family id = n.family := by
  rw [family, ← Node.family_shell, h.shell_eq, Node.family_shell]

theorem layout_eq : (s'.node id).layout = n.layout := by
  rw [← Node.layout_shell, h.shell_eq, Node.layout_shell]

theorem kids_follow : Slot.AllFollow Node.family n.layout (kids.map Slot.fit) :=
  h.placed.follow fun _ hplace => Node.metadata_of_map_mem_layout hplace

/-- A number whose node stays comes to the node with its new children. -/
theorem settles {s'' : Store} {y : Node} (hlt : id < s''.size) (hfamily : s''.family id = n.family)
    (hlayout : (s''.node id).layout = n.layout) (hfill : (s''.node id).fill (kids.map Slot.fit) = y)
    (hplaced : SlotsPlaced n.layout s'' q'.waiting (s''.slots id) kids below') :
    Settles s'' q'.waiting id (settled n.family [y] own) (id :: below') := by
  rw [← hlayout] at hplaced
  have hsettles := settles_of_placed hlt hplaced
  rwa [steadAt_eq_settled h.find_eq hfamily hfill] at hsettles

/-- The node stays, perhaps changed. -/
theorem keep {x y : Node} (hshell : x.shell = y.shell) (hfamily : y.family = n.family)
    (hlayout : y.layout = n.layout) (hchildren : y.children = kids.map Slot.fit) :
    Done t s q m id n below [id] (s'.setNode id x) q' [y] own := by
  have hfamily' : x.family = n.family := by
    rw [← Node.family_shell, hshell, Node.family_shell, hfamily]
  have hlayout' : x.layout = n.layout := by
    rw [← Node.layout_shell, hshell, Node.layout_shell, hlayout]
  have hnot : id ∉ below' := (List.nodup_cons.mp h.step.nodup).1
  refine ⟨id :: below', h.step.setNode (List.mem_cons_self ..) ?_ ?_, .of_settles (h.settles ?_ ?_ ?_ ?_ ?_) rfl⟩
  · rw [hfamily', h.family_eq]
  · rw [hlayout', h.layout_eq]
  · rw [size_setNode]
    exact h.lt
  · rw [family, node_setNode_self h.lt, hfamily']
  · rw [node_setNode_self h.lt, hlayout']
  · rw [node_setNode_self h.lt, ← hchildren, Node.fill_eq_of_shell hshell]
  · rw [slots_setNode_self h.lt]
    exact h.placed.of_frame (frame_setNode hnot)

/-- The node gives way to nodes of its family. -/
theorem splice {nodes : List Node} (hlayout : n.layout = [])
    (hnodes : ∀ x ∈ nodes, x.family = n.family) :
    Done t s q m id n below (s'.insertAll nodes).1 (s'.insertAll nodes).2 q' nodes own := by
  obtain ⟨rfl, hown⟩ := h.childless hlayout
  have hid : q'.waiting.find? id = none := by
    rw [h.find_eq]
    by_cases hinline : n.family = .inline
    · rw [if_pos hinline]
    · rw [if_neg hinline, hown hinline]
  have hfree : ∀ x : Nat, s'.size ≤ x → q'.waiting.find? x = none := by
    intro x hx
    by_contra hsome
    have := h.step.bounded h.ready hsome
    omega
  obtain ⟨hextends, hsize, hplaced⟩ := placed_insertAll hnodes hfree
  have hsettled : settled n.family nodes own = ⟨n.family, nodes⟩ := by
    by_cases hinline : n.family = .inline
    · rw [hinline, settled_inline]
    · rw [hown hinline, settled_none]
  rw [← hsettled] at hplaced
  refine ⟨List.range' s'.size (Node.sizeOfAll nodes),
    h.step.renew hextends (fun x hx => ?_) (List.nodup_range' ..) (fun x hx => ?_), hplaced⟩
  · rw [List.mem_singleton.mp hx]
    exact hid
  · rw [List.mem_range'_1] at hx
    rwa [hsize]

/-- The node stays, and others are recorded for the target. -/
theorem record {p : Nat} {nodes : List Node} (hinline : n.family = .inline) (hp : t = some p)
    (hbears : s'.Bears p) :
    Done t s q m id n below [id] s' (q'.add (some p) nodes) [n.fill (kids.map Slot.fit)]
      (own.or (some nodes)) := by
  have hstep := h.step
  rw [if_pos hinline] at hstep
  have hne : ∀ x ∈ id :: below', x ≠ p := by
    intro x hx heq
    rw [heq] at hx
    exact hstep.target_ne h.ready hx hp
  have hfill : (s'.node id).fill (kids.map Slot.fit) = n.fill (kids.map Slot.fit) := by
    refine Node.fill_congr h.shell_eq ?_
    rw [h.layout_eq]
    exact h.kids_follow
  have hsettles := h.settles h.lt h.family_eq h.layout_eq hfill h.placed
  rw [hinline, settled_inline] at hsettles
  refine ⟨id :: below', ?_, ?_⟩
  · rw [if_pos hinline]
    exact step_add hstep h.ready hp hbears (List.cons_ne_nil _ _)
  · rw [hinline, settled_inline]
    refine .of_settles (hsettles.of_frame ⟨Nat.le_refl _, fun _ _ => rfl, fun x hx => ?_⟩) rfl
    show (q'.add (some p) nodes).waiting.find? x = _
    rw [Deferred.find?_add, if_neg (hne x hx)]

end Reached

-- ---------------------------------------------------------------------------
-- Visits
-- ---------------------------------------------------------------------------

variable {σ : Type} {launcher : Launcher σ} {shorthands : List String}

/-- What the marks are worth is settled after the work on a node. -/
theorem settle_mirrors {α : Type} {Q : α → Store → Deferred → List Node → Mark → Prop}
    {Q' : α → Store → Deferred → Stead → Mark → Prop} {x : Walk σ α}
    {work : OnePass.Rewriting σ (List Node)} {family : Family}
    (h : Mirrors Q x work s q (if family = .inline then m else none))
    (himp : ∀ a s' q' nodes own, Q a s' q' nodes own →
      Q' a s' q' (settled family nodes own) (if family = .inline then own else m)) :
    Mirrors Q' x (OnePass.settle family work) s q m :=
  Coupled.map_right h fun p o => himp p.1.1 p.1.2 p.2 o.1 o.2

/-- Keeping nodes back for the target. -/
theorem deferTo_mirrors {α β : Type} {Q : α → Store → Deferred → β → Mark → Prop} {p : Nat}
    {nodes : List Node} {k : Unit → Walk σ α} {y : OnePass.Rewriting σ β}
    (htarget : target around s = some p) (h : Mirrors Q (k ()) y s (q.add (some p) nodes) m) :
    Mirrors Q (deferTo around nodes >>= k) y s q m := by
  rw [deferTo, bind_assoc]
  refine .get ?_
  rw [← htarget] at h
  exact .modifyBeside h

/-- Running the code at a number does to the store what running the code of the node does to the
node. -/
theorem dispatch_mirrors (h : Reached t s q m id n below s' q' own kids below')
    (hawaits : Awaits (depth + 1) around t s q.waiting id n (id :: below)) :
    Mirrors (Done t s q m id n below)
      (do
        match ← dispatch launcher shorthands ((← getThe Store).node id) with
        | .keep node =>
          modifyThe Store (·.setNode id node)
          return [id]
        | .replace nodes =>
          match resolve ((← getThe Store).family id) nodes with
          | .splice nodes => nodes.mapM fun node => modifyGetThe Store (·.insert node)
          | .defer nodes =>
            deferTo around nodes
            return [id] : Walk σ (List NodeId))
      (OnePass.perform launcher shorthands (n.fill (kids.map Slot.fit))) s' q' own := by
  have hshell : (s'.node id).shell = (n.fill (kids.map Slot.fit)).shell := by
    rw [h.shell_eq, Node.shell_fill]
  rw [OnePass.perform]
  refine .get ((Mirrors.lift (dispatch_coupled launcher shorthands hshell)).bind ?_)
  rintro _ _ _ _ _ ⟨halike, rfl, rfl, rfl⟩
  cases halike with
  | keep shell_eq family_eq layout_eq children_eq =>
    rw [Node.family_fill] at family_eq
    rw [Node.layout_fill] at layout_eq
    rw [Node.children_fill h.kids_follow] at children_eq
    exact .modifyGet (.pure (h.keep shell_eq family_eq layout_eq children_eq))
  | replace layout_eq =>
    rename_i nodes
    rw [Node.layout_fill] at layout_eq
    refine .get ?_
    dsimp only
    rw [Node.family_fill, h.family_eq]
    rcases hresolve : resolve n.family nodes with spliced | deferred
    · have hspliced := h.splice layout_eq fun x hx => resolve_family hresolve hx
      exact insert_mirrors (e := Effect (Executor σ)) hspliced
    · -- Only for an inline are nodes kept back, and around an inline some node bears inlines.
      have hinline := inline_of_resolve hresolve
      obtain ⟨p, hp, hbears⟩ := hawaits.bears hinline
      have htarget : target around s' = some p := by
        rw [target_of_keepsKinds h.step.kinds hawaits.around_lt, hawaits.target_eq, hp]
      have hbears' : s'.Bears p := hbears.of_keepsKinds h.step.kinds
      refine deferTo_mirrors htarget (.modifyMark (.pure ?_))
      exact h.record hinline hp hbears'

/-- A node without slots has nothing below it. -/
theorem Awaits.below_eq_nil (h : Awaits (depth + 1) around t s r id n (id :: below))
    (hlayout : n.layout = []) : below = [] := by
  have hkids := Node.children_follow n
  have hchildren := h.children
  rw [hlayout] at hkids
  rw [List.forall₂_nil_left_iff.mp hkids] at hchildren
  generalize s.slots id = slots at hchildren
  cases hchildren
  rfl

/-- All below a number was visited, and the slots are put back. -/
theorem reached_of_step {s₁ : Store} {slots : List (Slot NodeId)}
    (hready : Ready records t (id :: below) s q m)
    (hawaits : Awaits (depth + 1) around t s q.waiting id n (id :: below))
    (hstep : Step records (inner t id n.family) below (s.setSlots id []) q
      (if n.family = .inline then m else none) s₁ q' own below')
    (hplaced : SlotsPlaced n.layout s₁ q'.waiting slots kids below') :
    Reached t s q m id n below (s₁.setSlots id slots) q' own kids below' := by
  have hnot := (List.nodup_cons.mp hready.nodup).1
  have hinner : inner t id n.family = some id ∧ (if n.family = .inline then own else m) = m ∨
      inner t id n.family = t ∧ (if n.family = .inline then own else m) = own := by
    by_cases hinline : n.family = .inline
    · exact .inr ⟨if_pos hinline, if_pos hinline⟩
    · exact .inl ⟨if_neg hinline, if_neg hinline⟩
  refine ⟨hready, hstep.enclose hready slots hinner fun _ => trivial, ?_, ?_, ?_, fun hlayout => ?_⟩
  · rw [hstep.node_enclosed hready slots, hawaits.stored.shell_eq]
  · exact SlotsPlaced.enclose hready hstep slots hplaced
  · -- An inline is no target, so nothing was recorded for it; any other node is the target of all below.
    by_cases hinline : n.family = .inline
    · have hne : inner t id n.family ≠ some id := by
        rw [inner, if_pos hinline]
        exact hready.target_ne (List.mem_cons_self ..)
      rw [if_pos hinline]
      exact (hstep.find_eq id hnot hne).trans (hawaits.unrecorded id (List.mem_cons_self ..))
    · rw [if_neg hinline]
      exact hstep.target_find id (if_neg hinline)
  · have hnil := hawaits.below_eq_nil hlayout
    refine ⟨hnil, fun hinline => ?_⟩
    rw [hstep.mark_eq hnil, if_neg hinline]

/-- Visiting a number does what the pass does with the node that is stored there. A level of the visit
takes one entry of the footprint at least, so the fuel lasts. -/
theorem visit_visitor (launcher : Launcher σ) (shorthands : List String) (depth : Nat)
    (around : List NodeId) (t : Option Nat) :
    Visitor records t (Awaits depth around t) Node.family (visit launcher shorthands depth around)
      (OnePass.rewriteNode launcher shorthands) := by
  induction depth generalizing around t with
  | zero =>
    refine ⟨local_awaits, fun _ _ _ _ _ h => h.stored.family_eq, fun s q m id n f _ h => ?_⟩
    -- A footprint holds its number at least, so the fuel cannot have run out.
    have hpos := List.length_pos_of_mem h.stored.id_mem
    have := h.length_le
    omega
  | succ depth ih =>
    refine ⟨local_awaits, fun _ _ _ _ _ h => h.stored.family_eq, fun s q m id n f hready h => ?_⟩
    obtain ⟨below, rfl⟩ : ∃ below, f = id :: below := by
      have hstored := h.stored
      cases hstored with
      | intro _ _ _ => exact ⟨_, rfl⟩
    have hnone : q.waiting.find? id = none := h.unrecorded id (List.mem_cons_self ..)
    have hbelow : Ready records (inner t id n.family) below s q
        (if n.family = .inline then m else none) := by
      refine hready.enter ?_
      by_cases hinline : n.family = .inline
      · exact .inr ⟨if_pos hinline, if_pos hinline⟩
      · exact .inl ⟨if_neg hinline, by rw [if_neg hinline]; exact hnone.symm⟩
    -- Below comes first: the walk goes on with the slots, the pass with the children, and what is
    -- recorded there for this number is what is marked there for this node.
    rw [OnePass.rewriteNode_eq, visit]
    refine settle_mirrors (Q := Done t s q m id n below) ?_ fun _ _ _ _ _ hdone => hdone
    refine (rewriteBelow_mirrors (ih (id :: around) _) (List.nodup_cons.mp hready.nodup).1 h.children
      (Node.children_follow n) (fun _ hplace => Node.metadata_of_map_mem_layout hplace) hbelow).bind ?_
    rintro _ _ q' kids own ⟨s₁, slots, below', rfl, hstep, hplaced⟩
    exact dispatch_mirrors (reached_of_step hready h hstep hplaced) h

end Walk

end Literate
