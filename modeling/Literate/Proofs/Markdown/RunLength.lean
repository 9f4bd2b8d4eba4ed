import Literate.Markdown.Line
import Literate.Text.Run
import Mathlib

/-!
# Runs of a mark

How long the run of a mark is that a text begins with (`runLength`), and how it compares with the longest run
anywhere in the text (`longestRun`). A fence that is longer than the latter is met nowhere inside the text, not
even by who looks at the text from its middle.

Main result: `runLength_le_longestRun`.
-/

namespace Literate.Markdown

open Text (longestRun longestRunFrom)

theorem longestRunFrom_mono (c : Char) {run more : Nat} (h : run ≤ more) (cs : List Char) :
    longestRunFrom c run cs ≤ longestRunFrom c more cs := by
  induction cs generalizing run more with
  | nil => exact h
  | cons d cs ih =>
    rw [longestRunFrom, longestRunFrom]
    split
    · exact ih (Nat.succ_le_succ h)
    · omega

theorem runLength_cons_of_eq {c d : Char} (hd : d = c) (cs : List Char) :
    runLength c (d :: cs) = runLength c cs + 1 := by
  simp [runLength, hd]

theorem runLength_cons_of_ne {c d : Char} (hd : d ≠ c) (cs : List Char) : runLength c (d :: cs) = 0 := by
  simp [runLength, hd]

theorem runLength_replicate_append {c : Char} (size : Nat) {cs : List Char} (h : cs.head? ≠ some c) :
    runLength c (List.replicate size c ++ cs) = size := by
  have hstop : cs.takeWhile (· = c) = [] := by
    cases cs with
    | nil => rfl
    | cons d cs => exact List.takeWhile_cons_of_neg (by simpa using h)
  rw [runLength, List.takeWhile_append_of_pos (by simp), hstop]
  simp

theorem runLength_add_le (c : Char) (run : Nat) (cs : List Char) :
    runLength c cs + run ≤ longestRunFrom c run cs := by
  induction cs generalizing run with
  | nil => exact Nat.le_of_eq (Nat.zero_add run)
  | cons d cs ih =>
    rw [longestRunFrom]
    by_cases hd : d = c
    · have hrun := ih (run + 1)
      rw [if_pos hd]
      have hlength := runLength_cons_of_eq hd cs
      omega
    · rw [if_neg hd]
      have hlength := runLength_cons_of_ne hd cs
      omega

theorem longestRunFrom_suffix (c : Char) (run : Nat) (front back : List Char) :
    longestRunFrom c 0 back ≤ longestRunFrom c run (front ++ back) := by
  induction front generalizing run with
  | nil => exact longestRunFrom_mono c (Nat.zero_le run) back
  | cons d front ih =>
    rw [List.cons_append, longestRunFrom]
    split
    · exact ih (run + 1)
    · exact Nat.le_trans (ih 0) (Nat.le_max_right ..)

/-- No run at the front of an end of a text is longer than the longest in the text. -/
theorem runLength_le_longestRun {c : Char} {cs back : List Char} (h : back <:+ cs) :
    runLength c back ≤ longestRun c cs := by
  obtain ⟨front, rfl⟩ := h
  have hrun := runLength_add_le c 0 back
  have hsuffix := longestRunFrom_suffix c 0 front back
  rw [longestRun]
  omega

theorem runLength_eq_zero {c : Char} {cs : List Char} (h : c ∉ cs) : runLength c cs = 0 := by
  cases cs with
  | nil => rfl
  | cons d cs =>
    have hd : d ≠ c := fun hd => h (hd ▸ List.mem_cons_self ..)
    simp [runLength, hd]

/-- A text is the run at its front and what follows the run. -/
theorem eq_run_append (c : Char) (cs : List Char) :
    ∃ rest, cs = List.replicate (runLength c cs) c ++ rest ∧ rest.head? ≠ some c := by
  induction cs with
  | nil => exact ⟨[], rfl, by simp⟩
  | cons d cs ih =>
    by_cases hd : d = c
    · obtain ⟨rest, hcs, hrest⟩ := ih
      refine ⟨rest, ?_, hrest⟩
      rw [runLength_cons_of_eq hd, List.replicate_succ, List.cons_append, ← hcs, hd]
    · refine ⟨d :: cs, ?_, by simpa using hd⟩
      rw [runLength_cons_of_ne hd, List.replicate_zero, List.nil_append]

end Literate.Markdown
