import Literate.Execution.Walk
import Literate.Proofs.Coupling
import Literate.Proofs.Document.Stead

/-!
# Executing a document in one pass

Without numbers, a store and records, executing a document is a recursion over the document itself
(`OnePass`). The children of a node come first, slot by slot, then the node. What cannot stand in the
place of an inline is handed up as a mark: the mark of a node is what the first of the inlines in it
asked to be put in the place of a block or metadata around it. A node that is no inline and was marked
gives way to the marked nodes; what it was rewritten to is lost.

This is what `execute` is meant to do. It says nothing about the way it is done.
-/

namespace Literate

namespace OnePass

variable {σ : Type}

/-- A part of the pass: it runs code and marks the nearest node around that is no inline. -/
abbrev Rewriting (σ α : Type) := StateT Mark (Effect (Executor σ)) α

/-- What stands for a node of a family: the nodes that it was rewritten to, unless it was marked and is
no inline. -/
def settled (family : Family) (nodes : List Node) (own : Mark) : Stead :=
  ⟨family,
    if family = .inline then nodes
    else match own with
      | some recorded => lift family recorded
      | none => nodes⟩

theorem settled_inline (nodes : List Node) (own : Mark) : settled .inline nodes own = ⟨.inline, nodes⟩ :=
  rfl

theorem settled_none (family : Family) (nodes : List Node) :
    settled family nodes none = ⟨family, nodes⟩ := by
  cases family <;> rfl

theorem settled_some {family : Family} (h : family ≠ .inline) (nodes recorded : List Node) :
    settled family nodes (some recorded) = ⟨family, lift family recorded⟩ := by
  cases family with
  | inline => exact absurd rfl h
  | block => rfl
  | metadata => rfl

/-- Written out, for a node that is marked: a block gives way to the marked nodes as blocks, and metadata to them as
they are if they are all metadata, or else to one value. -/
theorem settled_eq (family : Family) (nodes recorded : List Node) :
    (settled family nodes (some recorded)).nodes =
      match family with
      | .inline => nodes
      | .block => (toBlocks recorded).map .block
      | .metadata =>
        if ∀ m ∈ recorded, m.family = .metadata then recorded
        else if ∀ m ∈ recorded, m.family = .inline then [.metadata (.inlines (toInlines recorded))]
        else [.metadata (.blocks (toBlocks recorded))] := by
  cases family with
  | inline => rfl
  | block => rfl
  | metadata =>
    show lift .metadata recorded = _
    simp [lift, allOf]

/-- Rewrites a node of a family by `work`. What is marked in an inline is marked around it; any other
node keeps its mark to itself. -/
def settle (family : Family) (work : Rewriting σ (List Node)) : Rewriting σ Stead := fun mark => do
  let (nodes, own) ← work.run (if family = .inline then mark else none)
  return (settled family nodes own, if family = .inline then own else mark)

/-- Runs the code of a node, whose children were rewritten before. The first mark is the one that
counts. -/
def perform (launcher : Launcher σ) (shorthands : List String) (n : Node) :
    Rewriting σ (List Node) := do
  match ← dispatch launcher shorthands n with
  | .keep n => return [n]
  | .replace nodes =>
    match resolve n.family nodes with
    | .splice nodes => return nodes
    | .defer nodes =>
      modify (·.or (some nodes))
      return [n]

/-- What is done with nodes that are to take the place of another. They do so as they are if all of them are of
its family. Otherwise a block gives way to them as blocks, and metadata to one value, of inlines if they are all
inlines and of blocks if not. An inline stays, and they are marked, if nothing was marked before. -/
theorem perform_eq (launcher : Launcher σ) (shorthands : List String) (n : Node) :
    perform launcher shorthands n = (do
      match ← dispatch launcher shorthands n with
      | .keep n => return [n]
      | .replace nodes =>
        if ∀ m ∈ nodes, m.family = n.family then return nodes
        else match n.family with
        | .block => return (toBlocks nodes).map .block
        | .metadata =>
          if ∀ m ∈ nodes, m.family = .inline then return [.metadata (.inlines (toInlines nodes))]
          else return [.metadata (.blocks (toBlocks nodes))]
        | .inline =>
          modify (·.or (some nodes))
          return [n]) := by
  have hall (family : Family) (nodes : List Node) :
      (∀ m ∈ nodes, m.family = family) ↔ allOf family nodes = true := by simp [allOf]
  rw [perform]
  refine bind_congr fun action => ?_
  cases action with
  | keep n => rfl
  | replace nodes =>
    simp only [hall, resolve]
    by_cases hsame : allOf n.family nodes = true
    · simp only [if_pos hsame]
    · simp only [if_neg hsame]
      cases hfamily : n.family with
      | block => rfl
      | inline => rfl
      | metadata =>
        rw [hfamily] at hsame
        simp only [lift, if_neg hsame]
        split <;> rfl

mutual

/-- Rewrites a node: its children first, then the node. -/
def rewriteNode (launcher : Launcher σ) (shorthands : List String) (n : Node) :
    Rewriting σ Stead :=
  settle n.family do
    let kids ← n.children.attach.mapM fun slot => rewriteSlot launcher shorthands slot.1
    perform launcher shorthands (n.fill (kids.map Slot.fit))
termination_by (n.size, 0)
decreasing_by
  exact .left _ _ (Node.sizeOfAll_lt_of_mem_children slot.2)

/-- Rewrites the nodes in a slot. -/
def rewriteSlot (launcher : Launcher σ) (shorthands : List String) (slot : Slot Node) :
    Rewriting σ (Slot Stead) :=
  match slot with
  | .single n => return .single (← rewriteNode launcher shorthands n)
  | .sequence ns => return .sequence (← ns.mapM (rewriteNode launcher shorthands))
  | .map entries =>
    return .map (← entries.mapM fun entry =>
      return (entry.1, ← rewriteNode launcher shorthands entry.2))
termination_by (Node.sizeOfAll slot.toList, 1)
decreasing_by
  · exact Prod.Lex.right' _ (Node.size_le_sizeOfAll (List.mem_singleton_self n)) Nat.zero_lt_one
  · next hn => exact Prod.Lex.right' _ (Node.size_le_sizeOfAll hn) Nat.zero_lt_one
  · next hentry =>
    have hn : entry.2 ∈ (Slot.map entries).toList := List.mem_map_of_mem hentry
    exact Prod.Lex.right' _ (Node.size_le_sizeOfAll hn) Nat.zero_lt_one

end

/-- A slot is rewritten node by node. -/
theorem rewriteSlot_eq (launcher : Launcher σ) (shorthands : List String) :
    rewriteSlot launcher shorthands = Slot.mapM (rewriteNode launcher shorthands) := by
  funext slot
  cases slot with
  | single n => rw [rewriteSlot, Slot.mapM]
  | sequence ns => rw [rewriteSlot, Slot.mapM]
  | map entries => rw [rewriteSlot, Slot.mapM]

/-- A node is rewritten after all nodes in its slots. -/
theorem rewriteNode_eq (launcher : Launcher σ) (shorthands : List String) (n : Node) :
    rewriteNode launcher shorthands n = settle n.family (do
      let kids ← n.children.mapM (Slot.mapM (rewriteNode launcher shorthands))
      perform launcher shorthands (n.fill (kids.map Slot.fit))) := by
  have hattach := List.mapM_map (m := StateT Mark (Effect (Executor σ))) (l := n.children.attach)
    (f := Subtype.val) (g := rewriteSlot launcher shorthands)
  rw [List.attach_map_subtype_val] at hattach
  rw [rewriteNode, ← rewriteSlot_eq, hattach]
  rfl

/-- Rewrites a document. Nothing around its containers can be marked. -/
def rewriteDocument (launcher : Launcher σ) (shorthands : List String) (d : Document) :
    Effect (Executor σ) Document := do
  let kids ← (d.children.mapM (rewriteSlot launcher shorthands)).run' none
  return Document.filled (kids.map Slot.fit)

/-- Executes a document in one pass, with a limit on the patterns that can be compiled. -/
def executeUnder (limit : PatternLimit) (launcher : Launcher σ) (shorthands : List String)
    (d : Document) : Effect σ Document := do
  .ofExcept launcher.preflight
  .ofExcept (compileShorthands limit shorthands)
  Executor.session launcher (rewriteDocument launcher shorthands d)

end OnePass

end Literate
