import Literate.Proofs.Execution.Execute

/-!
# What a document runs

While a document is executed, its tree changes with the answers: nodes give way to others, containers
come in, blocks wait. What is run next could depend on all this, and does not. It can be read off the
document before anything has run (`Document.plan`): every node is looked at once, after the nodes below
it, and what an answer brings in is never looked at.

Main results:

* `length_postOrder`: every node of a tree comes once in reading order.
* `Lockstep.rewriteNode`: the pass over a node runs the lines of the nodes below it, then its own.
* `forget_executeUnder`: but for its result, executing a document is running its plan.
-/

namespace Literate

-- ---------------------------------------------------------------------------
-- The plan of a document
-- ---------------------------------------------------------------------------

/-- The nodes of a tree in reading order, each after the nodes below it. -/
def Node.postOrder (n : Node) : List Node :=
  n.children.attach.flatMap (fun slot => slot.1.toList.attach.flatMap fun child => child.1.postOrder) ++
    [n]
termination_by n.size
decreasing_by exact Node.size_lt_of_mem_children slot.2 child.2

theorem Node.postOrder_eq (n : Node) :
    n.postOrder = n.children.flatMap (fun slot => slot.toList.flatMap postOrder) ++ [n] := by
  rw [postOrder]
  congr 1
  simp only [List.flatMap_subtype, List.unattach_attach]

theorem Node.length_flatMap_nodes {α : Type} {f : Node → List α} {nodes : List Node}
    (hf : ∀ n ∈ nodes, (f n).length = n.size) : (nodes.flatMap f).length = sizeOfAll nodes := by
  induction nodes with
  | nil => rfl
  | cons n nodes ih =>
    obtain ⟨hn, hnodes⟩ := List.forall_mem_cons.mp hf
    rw [List.flatMap_cons, List.length_append, hn, ih hnodes, sizeOfAll]

theorem Node.length_flatMap_slots {α : Type} {f : Node → List α} {slots : List (Slot Node)}
    (hf : ∀ slot ∈ slots, ∀ n ∈ slot.toList, (f n).length = n.size) :
    (slots.flatMap fun slot => slot.toList.flatMap f).length = sizeOfSlots slots := by
  induction slots with
  | nil => rfl
  | cons slot slots ih =>
    obtain ⟨hslot, hslots⟩ := List.forall_mem_cons.mp hf
    rw [List.flatMap_cons, List.length_append, length_flatMap_nodes hslot, ih hslots, sizeOfSlots]

/-- Every node of a tree comes once in reading order. -/
theorem Node.length_postOrder (n : Node) : n.postOrder.length = n.size := by
  induction n using Node.induction with
  | step n ih =>
    rw [postOrder_eq, List.length_append, length_flatMap_slots ih, List.length_singleton, size_eq,
      Nat.add_comm]

/-- The nodes of a document in reading order: those of the metadata, key by key, then those of the
blocks. -/
def Document.postOrder (d : Document) : List Node :=
  d.children.flatMap fun slot => slot.toList.flatMap Node.postOrder

/-- All that a tree runs, in order. -/
def Node.plan (shorthands : List String) (n : Node) : List Batch :=
  n.postOrder.filterMap (Dispatch.batch? shorthands)

/-- All that a document runs, in order. -/
def Document.plan (shorthands : List String) (d : Document) : List Batch :=
  d.postOrder.filterMap (Dispatch.batch? shorthands)

theorem Node.plan_eq (shorthands : List String) (n : Node) :
    n.plan shorthands = n.children.flatMap (fun slot => slot.toList.flatMap (plan shorthands)) ++
      (Dispatch.batch? shorthands n).toList := by
  have hown : [n].filterMap (Dispatch.batch? shorthands) = (Dispatch.batch? shorthands n).toList := by
    cases hbatch : Dispatch.batch? shorthands n <;> simp [hbatch]
  rw [plan, postOrder_eq, List.filterMap_append, hown]
  simp only [List.filterMap_flatMap]
  rfl

theorem Document.plan_eq (shorthands : List String) (d : Document) :
    d.plan shorthands = d.children.flatMap fun slot => slot.toList.flatMap (Node.plan shorthands) := by
  rw [plan, postOrder]
  simp only [List.filterMap_flatMap]
  rfl

example : Document.plan ["pq"] {
      metadata := [("title", .inlines [.code .empty "pq(1)"])]
      blocks := [.paragraph [.image "`3`{.python}" "" [.code (.ofClasses ["python"]) "2"]]] } =
    [.expression "pq(1)", .expression "2", .expression "3"] := by
  cbv

-- ---------------------------------------------------------------------------
-- Two passes in lockstep
-- ---------------------------------------------------------------------------

namespace OnePass

variable {σ τ : Type}

/-- A relation between parts of two passes, with the lines that both of them run. The pass gets at its
launcher by running lines, and in no other way; so a relation that keeps what is listed here holds for
the pass over any node. -/
structure Lockstep (left : Launcher σ) (right : Launcher τ)
    (R : (α : Type) → List Batch → Rewriting σ α → Rewriting τ α → Prop) : Prop where
  pure : ∀ {α : Type} (a : α), R α [] (Pure.pure a) (Pure.pure a)
  bind : ∀ {α β : Type} {batches rest : List Batch} {x : Rewriting σ α} {y : Rewriting τ α}
    {f : α → Rewriting σ β} {g : α → Rewriting τ β}, R α batches x y →
    (∀ a, R β rest (f a) (g a)) → R β (batches ++ rest) (x >>= f) (y >>= g)
  mark : ∀ f : Mark → Mark, R PUnit [] (modify f) (modify f)
  settle : ∀ {batches : List Batch} {x : Rewriting σ (List Node)} {y : Rewriting τ (List Node)}
    (family : Family), R (List Node) batches x y →
    R Stead batches (OnePass.settle family x) (OnePass.settle family y)
  run : ∀ batch : Batch,
    R String [batch] (liftM (Executor.run left batch)) (liftM (Executor.run right batch))

namespace Lockstep

variable {left : Launcher σ} {right : Launcher τ} {α β γ : Type}
  {R : (α : Type) → List Batch → Rewriting σ α → Rewriting τ α → Prop} {batches : List Batch}
  {shorthands : List String} (h : Lockstep left right R)

include h

/-- What is done to the result afterwards. -/
theorem map {x : Rewriting σ α} {y : Rewriting τ α} (hxy : R α batches x y) (f : α → β) :
    R β batches (do return f (← x)) (do return f (← y)) := by
  have hreturn := h.bind hxy fun a => h.pure (f a)
  rwa [List.append_nil] at hreturn

/-- A list is gone through member by member. -/
theorem mapM {as : List α} {f : α → Rewriting σ β} {g : α → Rewriting τ β} {plan : α → List Batch}
    (hfg : ∀ a ∈ as, R β (plan a) (f a) (g a)) :
    R (List β) (as.flatMap plan) (as.mapM f) (as.mapM g) := by
  induction as with
  | nil => exact h.pure []
  | cons a as ih =>
    have hrest := ih fun b hb => hfg b (List.mem_cons_of_mem _ hb)
    rw [List.flatMap_cons, List.mapM_cons, List.mapM_cons]
    exact h.bind (hfg a (List.mem_cons_self ..)) fun b => h.map hrest (b :: ·)

/-- A slot is gone through child by child. -/
theorem slot {slot : Slot Node} {f : Node → Rewriting σ β} {g : Node → Rewriting τ β}
    {plan : Node → List Batch} (hfg : ∀ child ∈ slot.toList, R β (plan child) (f child) (g child)) :
    R (Slot β) (slot.toList.flatMap plan) (slot.mapM f) (slot.mapM g) := by
  cases slot with
  | single child =>
    have hchild := h.map (hfg child (List.mem_singleton_self _)) Slot.single
    rwa [← List.append_nil (plan child)] at hchild
  | sequence children => exact h.map (h.mapM hfg) Slot.sequence
  | map entries =>
    rw [Slot.toList, List.flatMap_map]
    refine h.map (h.mapM fun entry hentry => ?_) Slot.map
    exact h.map (hfg entry.2 (List.mem_map_of_mem hentry)) (entry.1, ·)

theorem dispatch (n : Node) :
    R Action (Dispatch.batch? shorthands n).toList
      (liftM (Literate.dispatch left shorthands n)) (liftM (Literate.dispatch right shorthands n)) := by
  rw [Literate.dispatch, Literate.dispatch]
  cases Dispatch.batch? shorthands n with
  | none =>
    dsimp only
    rw [liftM_pure, liftM_pure]
    exact h.pure _
  | some batch =>
    dsimp only
    rw [liftM_bind, liftM_bind]
    simp only [liftM_pure]
    exact h.map (h.run batch) fun answer => Dispatch.respond shorthands answer n

theorem perform (n : Node) :
    R (List Node) (Dispatch.batch? shorthands n).toList (OnePass.perform left shorthands n)
      (OnePass.perform right shorthands n) := by
  rw [OnePass.perform, OnePass.perform, ← List.append_nil (Option.toList _)]
  refine h.bind (h.dispatch n) fun action => ?_
  cases action with
  | keep node => exact h.pure [node]
  | replace nodes =>
    dsimp only
    rcases resolve n.family nodes with spliced | deferred
    · exact h.pure spliced
    · exact h.map (h.mark _) fun _ => [n]

/-- The pass over a node runs the lines of the nodes below it and then its own, whatever is answered. The
answers to the lines below change the children of the node, not what it asks for itself. -/
theorem rewriteNode (n : Node) :
    R Stead (n.plan shorthands) (OnePass.rewriteNode left shorthands n)
      (OnePass.rewriteNode right shorthands n) := by
  induction n using Node.induction with
  | step n ih =>
    have hslot : ∀ slot ∈ n.children, R (Slot Stead) (slot.toList.flatMap (Node.plan shorthands))
        (slot.mapM (OnePass.rewriteNode left shorthands))
        (slot.mapM (OnePass.rewriteNode right shorthands)) :=
      fun slot hslot => h.slot fun child hchild => ih slot hslot child hchild
    rw [rewriteNode_eq, rewriteNode_eq, Node.plan_eq]
    refine h.settle _ (h.bind (h.mapM hslot) fun kids => ?_)
    -- The node keeps its shell, and the lines that it asks for can be read off the shell.
    rw [← Dispatch.batch?_congr (Node.shell_fill n (kids.map Slot.fit))]
    exact h.perform _

/-- The pass over a document runs the lines of its plan. -/
theorem rewriteSlots (shorthands : List String) (d : Document) :
    R (List (Slot Stead)) (d.plan shorthands) (d.children.mapM (rewriteSlot left shorthands))
      (d.children.mapM (rewriteSlot right shorthands)) := by
  rw [Document.plan_eq, rewriteSlot_eq, rewriteSlot_eq]
  exact h.mapM fun slot _ => h.slot fun child _ => h.rewriteNode child

end Lockstep

/-- A part of the pass that does nothing but run certain lines, whatever is marked and answered. -/
def Asks (launcher : Launcher σ) {α : Type} (batches : List Batch) (x : Rewriting σ α) : Prop :=
  ∀ mark, (x.run mark).forget = Executor.runAll launcher batches

theorem lockstep_asks (launcher : Launcher σ) :
    Lockstep launcher launcher fun _ batches x _ => Asks launcher batches x where
  pure a := fun _ => rfl
  bind hx hf := by
    intro mark
    rw [Executor.runAll_append, ← hx mark, StateT.run_bind]
    exact Effect.forget_bind fun p => hf p.1 p.2
  mark f := fun _ => rfl
  settle family hx := by
    intro mark
    rw [← hx (if family = .inline then mark else none)]
    exact Effect.forget_map ..
  run batch := by
    intro mark
    rw [Executor.runAll_singleton]
    exact Effect.forget_map ..

/-- But for its result, the pass over a document is running its plan. -/
theorem forget_rewriteDocument (launcher : Launcher σ) (shorthands : List String) (d : Document) :
    (rewriteDocument launcher shorthands d).forget = Executor.runAll launcher (d.plan shorthands) := by
  rw [← (lockstep_asks launcher).rewriteSlots shorthands d none, rewriteDocument, bind_pure_comp,
    Effect.forget_map, StateT.run'_eq, Effect.forget_map]

end OnePass

/-- But for its result, executing a document is running its plan in a session. -/
theorem forget_executeUnder {σ : Type} (limit : PatternLimit) (launcher : Launcher σ)
    (shorthands : List String) (d : Document) :
    (executeUnder limit launcher shorthands d).forget = (do
      .ofExcept launcher.preflight
      .ofExcept (compileShorthands limit shorthands)
      Executor.session launcher (Executor.runAll launcher (d.plan shorthands))) := by
  rw [executeUnder, session_visitAll, ← OnePass.forget_rewriteDocument, ← Executor.forget_session]
  simp only [Effect.forget, map_bind]

end Literate
