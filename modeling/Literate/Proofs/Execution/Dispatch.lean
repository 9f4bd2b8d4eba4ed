import Literate.Execution.Dispatch
import Literate.Proofs.Coupling
import Literate.Proofs.Document.Layout

/-!
# Dispatching a node and its shell

In a store a node stands without its children, in a document with them. What a node asks to be run, and
what becomes of it, is the same either way: code has no children, and the address of an image is changed
without a look at its alternative text.

Main results:

* `batch?_congr`: nodes with the same shell ask for the same lines.
* `dispatch_coupled`: dispatching nodes with the same shell has the same effects. Either both nodes stay,
  with their shells still the same and their children untouched, or both give way to the same nodes;
  only nodes without slots give way.
-/

namespace Literate

namespace Dispatch

variable {shorthands : List String} {answer : String} {n m : Node}

/-- The call of a function, on one line. -/
theorem isCallOf_iff {name text : List Char} :
    isCallOf name text = true ↔ ∃ argument, '\n' ∉ argument ∧ text = name ++ '(' :: (argument ++ [')']) := by
  have hdrop (behind : List Char) : (name ++ ['('] ++ behind).drop (name.length + 1) = behind :=
    List.drop_left' (by rw [List.length_append, List.length_singleton])
  rw [isCallOf, Bool.and_eq_true, List.isPrefixOf_iff_prefix]
  constructor
  · rintro ⟨⟨behind, rfl⟩, hargument⟩
    simp only [hdrop, Bool.and_eq_true, decide_eq_true_eq, Bool.not_eq_true', List.contains_eq_mem,
      decide_eq_false_iff_not] at hargument
    obtain ⟨hlast, hinner⟩ := hargument
    obtain ⟨argument, rfl⟩ := List.getLast?_eq_some_iff.mp hlast
    rw [List.dropLast_concat] at hinner
    exact ⟨argument, hinner, by simp⟩
  · rintro ⟨argument, hfeed, rfl⟩
    have hbehind := hdrop (argument ++ [')'])
    rw [List.append_assoc, List.singleton_append] at hbehind
    refine ⟨⟨argument ++ [')'], by simp⟩, ?_⟩
    simp [hbehind, hfeed]

theorem batch?_shell (n : Node) : batch? shorthands n.shell = batch? shorthands n := by
  rcases n with b | i | v
  · cases b <;> rfl
  · cases i <;> rfl
  · cases v <;> rfl

/-- Nodes with the same shell ask for the same lines. -/
theorem batch?_congr (h : n.shell = m.shell) : batch? shorthands n = batch? shorthands m := by
  rw [← batch?_shell n, h, batch?_shell m]

/-- What is done with a node, without the node's children. -/
def actionShell : Action → Action
  | .keep node => .keep node.shell
  | .replace nodes => .replace nodes

theorem actionShell_respond_shell (n : Node) :
    actionShell (respond shorthands answer n.shell) = actionShell (respond shorthands answer n) := by
  rcases n with b | i | v
  · cases b <;> rfl
  · cases i <;> rfl
  · cases v <;> rfl

theorem actionShell_respond_congr (h : n.shell = m.shell) :
    actionShell (respond shorthands answer n) = actionShell (respond shorthands answer m) := by
  rw [← actionShell_respond_shell n, h, actionShell_respond_shell m]

theorem respond_image (shorthands : List String) (answer dest title : String) (alt : List Inline) :
    ∃ dest', respond shorthands answer (.inline (.image dest title alt)) =
      .keep (.inline (.image dest' title alt)) := by
  rw [respond]
  exact ⟨_, rfl⟩

theorem respond_math (shorthands : List String) (answer : String) (display : Bool) (text : String) :
    ∃ text', respond shorthands answer (.inline (.math display text)) =
      .keep (.inline (.math display text')) := by
  rw [respond]
  exact ⟨_, rfl⟩

theorem respondToCode_cases (shorthands : List String) (answer : String) (attr : Attr)
    (text : String) :
    (∃ attr' text', respondToCode shorthands answer attr text = .keep (.inline (.code attr' text'))) ∨
      ∃ nodes, respondToCode shorthands answer attr text = .replace nodes := by
  unfold respondToCode
  split
  · exact .inr ⟨_, rfl⟩
  split
  · exact .inl ⟨_, _, rfl⟩
  split
  · exact .inr ⟨_, rfl⟩
  · exact .inr ⟨_, rfl⟩

/-- A node that stays keeps its family, its layout and its children. Only a node without slots gives
way. -/
theorem respond_cases (shorthands : List String) (answer : String) (n : Node) :
    (∃ m, respond shorthands answer n = .keep m ∧ m.family = n.family ∧ m.layout = n.layout ∧
        m.children = n.children) ∨
      (∃ nodes, respond shorthands answer n = .replace nodes) ∧ n.layout = [] := by
  rcases n with b | i | v
  · cases b with
    | codeBlock attr text =>
      by_cases hecho : attr.hasClass "echo"
      · exact .inl ⟨_, if_pos hecho, rfl, rfl, rfl⟩
      · exact .inr ⟨⟨_, if_neg hecho⟩, rfl⟩
    | _ => exact .inl ⟨_, rfl, rfl, rfl, rfl⟩
  · cases i with
    | code attr text =>
      obtain ⟨attr', text', hkeep⟩ | ⟨nodes, hreplace⟩ :=
        respondToCode_cases shorthands answer attr text
      · exact .inl ⟨_, hkeep, rfl, rfl, rfl⟩
      · exact .inr ⟨⟨nodes, hreplace⟩, rfl⟩
    | image dest title alt =>
      obtain ⟨dest', hkeep⟩ := respond_image shorthands answer dest title alt
      exact .inl ⟨_, hkeep, rfl, rfl, rfl⟩
    | math display text =>
      obtain ⟨text', hkeep⟩ := respond_math shorthands answer display text
      exact .inl ⟨_, hkeep, rfl, rfl, rfl⟩
    | _ => exact .inl ⟨_, rfl, rfl, rfl, rfl⟩
  · exact .inl ⟨_, rfl, rfl, rfl, rfl⟩

end Dispatch

/-- What becomes of a node, on the left of the node as it stands in a store, on the right of the node
`n` with its children. -/
inductive ActsAlike (n : Node) : Action → Action → Prop where
  /-- Both stay. -/
  | keep {x y : Node} (shell_eq : x.shell = y.shell) (family_eq : y.family = n.family)
      (layout_eq : y.layout = n.layout) (children_eq : y.children = n.children) :
      ActsAlike n (.keep x) (.keep y)
  /-- Both give way. -/
  | replace {nodes : List Node} (layout_eq : n.layout = []) :
      ActsAlike n (.replace nodes) (.replace nodes)

open Dispatch in
theorem respond_alike {n m : Node} (shorthands : List String) (answer : String)
    (h : m.shell = n.shell) :
    ActsAlike n (respond shorthands answer m) (respond shorthands answer n) := by
  have hshell : actionShell (respond shorthands answer m) = actionShell (respond shorthands answer n) :=
    actionShell_respond_congr h
  obtain ⟨y, hy, hfamily, hlayout, hchildren⟩ | ⟨⟨nodes, hnodes⟩, hlayout⟩ :=
    respond_cases shorthands answer n
  · rw [hy] at hshell ⊢
    rcases hx : respond shorthands answer m with x | nodes
    · rw [hx] at hshell
      exact .keep (Action.keep.inj hshell) hfamily hlayout hchildren
    · rw [hx] at hshell
      cases hshell
  · rw [hnodes] at hshell ⊢
    rcases hx : respond shorthands answer m with x | nodes'
    · rw [hx] at hshell
      cases hshell
    · rw [hx] at hshell
      rw [Action.replace.inj hshell]
      exact .replace hlayout

/-- Dispatching a node and its shell has the same effects, and does the same to the node. -/
theorem dispatch_coupled {σ : Type} (launcher : Launcher σ) (shorthands : List String) {n m : Node}
    (h : m.shell = n.shell) :
    Coupled (ActsAlike n) (dispatch launcher shorthands m) (dispatch launcher shorthands n) := by
  unfold dispatch
  rw [Dispatch.batch?_congr h]
  cases Dispatch.batch? shorthands n with
  | none => exact .pure (.keep h rfl rfl rfl)
  | some batch =>
    simp only [bind_pure_comp]
    exact .map_map fun answer => respond_alike shorthands answer h

end Literate
