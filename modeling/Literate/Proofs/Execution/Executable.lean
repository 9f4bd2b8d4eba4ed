import Literate.Proofs.Execution.FragmentTags
import Literate.Proofs.Execution.ImageAddress
import Literate.Proofs.Execution.Indentation
import Literate.Proofs.Execution.Plan

/-!
# Executable nodes

Which nodes have code to run, and what each of them asks for, said without the way they are dispatched
(`Executable`): by the classes of code, the grammar of the calls of shorthands, and that of the fragments in
formulas and addresses. What a document runs is what its executable nodes ask for, one after the other
(`Asks`).

Main results:

* `Dispatch.batch?_eq_some_iff`: what a node has to run is what it asks for, if it is executable.
* `Document.plan_eq_iff`: the same for a document.
-/

namespace Literate

namespace Dispatch

open Indentation (indent nextLine?)
open Text.Percent (decode)

/-- The call of a shorthand: its name, and on one line an argument in parentheses. -/
def IsCall (shorthands : List String) (text : String) : Prop :=
  ∃ name ∈ shorthands, ∃ argument : String, '\n' ∉ argument.toList ∧ text = name ++ "(" ++ argument ++ ")"

/-- The lines that a code block asks for. An empty line comes behind them if the last that is not blank is
indented by four blanks or more. -/
inductive Sent (lines : List String) : List String → Prop where
  | open_suite {last : String} (last_eq : nextLine? lines.reverse = some last) (wide : 4 ≤ indent last) :
      Sent lines (lines ++ [""])
  | no_suite (narrow : ∀ last, nextLine? lines.reverse = some last → indent last < 4) : Sent lines lines

/-- Whether the first fragment in a text has this code, and tags that ask to run it. -/
def Embeds (text code : String) : Prop :=
  ∃ front s behind, Fragment.IsFirst text.toList front s behind ∧ code = String.ofList s.code ∧
    "python".toList ∈ Fragment.tagsOfItems s.items ∧ "noexec".toList ∉ Fragment.tagsOfItems s.items

/-- A node that has code to run, and what it asks for. -/
inductive Executable (shorthands : List String) : Node → Batch → Prop where
  | block {attr : Attr} {text : String} {lines : List String} (python : "python" ∈ attr.classes)
      (noexec : "noexec" ∉ attr.classes) (sent : Sent (Text.lines text) lines) :
      Executable shorthands (.block (.codeBlock attr text))
        ⟨lines, decide ("echo" ∈ attr.classes), decide ("repl" ∈ attr.classes)⟩
  | code {attr : Attr} {text : String} (runs : "python" ∈ attr.classes ∨ IsCall shorthands text)
      (noexec : "noexec" ∉ attr.classes) :
      Executable shorthands (.inline (.code attr text)) ⟨[text], false, false⟩
  | math {display : Bool} {text code : String} (embeds : Embeds text code) :
      Executable shorthands (.inline (.math display text)) ⟨[code], false, false⟩
  | image {dest title : String} {alt : List Inline} {code : String} (embeds : Embeds (decode dest) code) :
      Executable shorthands (.inline (.image dest title alt)) ⟨[code], false, false⟩

variable {shorthands : List String} {text code : String} {lines sent : List String} {batch : Batch} {n : Node}

theorem isShorthand_iff : isShorthand shorthands text = true ↔ IsCall shorthands text := by
  rw [isShorthand, List.any_eq_true]
  refine exists_congr fun name => and_congr_right fun _ => ?_
  rw [isCallOf_iff]
  constructor
  · rintro ⟨argument, hfeed, htext⟩
    refine ⟨String.ofList argument, by rwa [String.toList_ofList], ?_⟩
    rw [← String.toList_inj, htext]
    simp
  · rintro ⟨argument, hfeed, rfl⟩
    exact ⟨argument.toList, hfeed, by simp⟩

theorem nextLevel_pos_iff :
    0 < Indentation.nextLevel lines ↔ ∃ next, nextLine? lines = some next ∧ 4 ≤ indent next := by
  have hlevel : Indentation.nextLevel lines = ((nextLine? lines).map Indentation.level).getD 0 := rfl
  rw [hlevel]
  cases nextLine? lines with
  | none => simp
  | some next => simp [Indentation.level_pos_iff]

theorem sent_iff : Sent (Text.lines text) sent ↔ blockLines text = sent := by
  rw [blockLines, Indentation.closeSuite]
  constructor
  · intro h
    cases h with
    | open_suite hlast hwide => exact if_pos (nextLevel_pos_iff.mpr ⟨_, hlast, hwide⟩)
    | no_suite hnarrow =>
      refine if_neg fun hlevel => ?_
      obtain ⟨last, hlast, hwide⟩ := nextLevel_pos_iff.mp hlevel
      exact Nat.not_lt_of_le hwide (hnarrow last hlast)
  · rintro rfl
    split
    · rename_i hlevel
      obtain ⟨last, hlast, hwide⟩ := nextLevel_pos_iff.mp hlevel
      exact .open_suite hlast hwide
    · rename_i hlevel
      refine .no_suite fun last hlast => ?_
      by_contra hwide
      exact hlevel (nextLevel_pos_iff.mpr ⟨last, hlast, Nat.le_of_not_lt hwide⟩)

theorem map_fragmentBatch_eq_some_iff :
    (fragment? text).map fragmentBatch = some batch ↔
      ∃ code, Embeds text code ∧ batch = ⟨[code], false, false⟩ := by
  rw [Option.map_eq_some_iff]
  constructor
  · rintro ⟨fragment, hfragment, rfl⟩
    obtain ⟨hfind, hpython, hnoexec⟩ := fragment?_eq_some_iff.mp hfragment
    obtain ⟨s, hfirst, hcode, htags⟩ := Fragment.find?_eq_some_iff.mp hfind
    rw [Fragment.tagsOf_group] at htags
    simp only [Fragment.hasTag, htags, List.contains_eq_mem, decide_eq_true_eq, decide_eq_false_iff_not]
      at hpython hnoexec
    exact ⟨_, ⟨_, s, _, hfirst, rfl, hpython, hnoexec⟩, by rw [fragmentBatch, hcode, Batch.expression]⟩
  · rintro ⟨code, ⟨front, s, behind, hfirst, rfl, hpython, hnoexec⟩, rfl⟩
    have hfind : Fragment.find? text = some ⟨front, s.code, Fragment.tagsOf s.group, behind⟩ :=
      Fragment.find?_eq_some_iff.mpr ⟨s, hfirst, rfl, rfl⟩
    refine ⟨_, fragment?_eq_some_iff.mpr ⟨hfind, ?_, ?_⟩, rfl⟩ <;>
      simpa [Fragment.hasTag, Fragment.tagsOf_group]

/-- **Executable nodes.** What a node has to run is what it asks for, and there is nothing to run exactly if it
is not executable. -/
theorem batch?_eq_some_iff : batch? shorthands n = some batch ↔ Executable shorthands n batch := by
  constructor
  · intro h
    rcases n with block | inline | value
    · cases block with
      | codeBlock attr text =>
        rw [batch?, Option.ite_none_left_eq_some] at h
        obtain ⟨hruns, ⟨⟩⟩ := h
        simp only [Attr.hasClass, Bool.or_eq_true, Bool.not_eq_true', not_or, List.contains_eq_mem,
          decide_eq_true_eq, decide_eq_false_iff_not, not_not] at hruns ⊢
        exact .block hruns.2 hruns.1 (sent_iff.mpr rfl)
      | _ => cases h
    · cases inline with
      | code attr text =>
        rw [batch?, Option.ite_none_left_eq_some, Option.ite_none_right_eq_some] at h
        obtain ⟨hnoexec, hruns, ⟨⟩⟩ := h
        simp only [Attr.hasClass, Bool.or_eq_true, List.contains_eq_mem, decide_eq_true_eq, isShorthand_iff]
          at hnoexec hruns
        exact .code hruns.symm hnoexec
      | math display text =>
        obtain ⟨code, hembeds, rfl⟩ := map_fragmentBatch_eq_some_iff.mp h
        exact .math hembeds
      | image dest title alt =>
        obtain ⟨code, hembeds, rfl⟩ := map_fragmentBatch_eq_some_iff.mp h
        exact .image hembeds
      | _ => cases h
    · cases h
  · intro h
    cases h with
    | block hpython hnoexec hsent =>
      rw [← sent_iff.mp hsent]
      simp [batch?, Attr.hasClass, hpython, hnoexec]
    | code hruns hnoexec =>
      simp [batch?, Attr.hasClass, hnoexec, isShorthand_iff, hruns.symm, Batch.expression]
    | math hembeds => exact map_fragmentBatch_eq_some_iff.mpr ⟨_, hembeds, rfl⟩
    | image hembeds => exact map_fragmentBatch_eq_some_iff.mpr ⟨_, hembeds, rfl⟩

theorem batch?_eq_none_iff : batch? shorthands n = none ↔ ∀ batch, ¬ Executable shorthands n batch := by
  simp only [← batch?_eq_some_iff]
  exact Option.eq_none_iff_forall_ne_some

/-- What nodes ask for one after the other, where those that are not executable are passed over. -/
inductive Asks (shorthands : List String) : List Node → List Batch → Prop where
  | nil : Asks shorthands [] []
  | skip {n : Node} {nodes : List Node} {batches : List Batch}
      (not_executable : ∀ batch, ¬ Executable shorthands n batch) (rest : Asks shorthands nodes batches) :
      Asks shorthands (n :: nodes) batches
  | run {n : Node} {nodes : List Node} {batch : Batch} {batches : List Batch}
      (executable : Executable shorthands n batch) (rest : Asks shorthands nodes batches) :
      Asks shorthands (n :: nodes) (batch :: batches)

theorem asks_iff {nodes : List Node} {batches : List Batch} :
    Asks shorthands nodes batches ↔ nodes.filterMap (batch? shorthands) = batches := by
  constructor
  · intro h
    induction h with
    | nil => rfl
    | skip hnot _ ih => rwa [List.filterMap_cons_none (batch?_eq_none_iff.mpr hnot)]
    | run hruns _ ih => rw [List.filterMap_cons_some (batch?_eq_some_iff.mpr hruns), ih]
  · rintro rfl
    induction nodes with
    | nil => exact .nil
    | cons n nodes ih =>
      cases hbatch : batch? shorthands n with
      | none =>
        rw [List.filterMap_cons_none hbatch]
        exact .skip (batch?_eq_none_iff.mp hbatch) ih
      | some batch =>
        rw [List.filterMap_cons_some hbatch]
        exact .run (batch?_eq_some_iff.mp hbatch) ih

end Dispatch

/-- What a document runs is what its executable nodes ask for, in reading order. -/
theorem Document.plan_eq_iff {shorthands : List String} {d : Document} {batches : List Batch} :
    d.plan shorthands = batches ↔ Dispatch.Asks shorthands d.postOrder batches :=
  Dispatch.asks_iff.symm

end Literate
