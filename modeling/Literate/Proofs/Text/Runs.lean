import Literate.Text.Blank
import Mathlib

/-!
# Runs of characters of one kind

Where a run of characters of one kind ends is plain from the text: a text can be cut in one way only into a
run and a rest that does not go on with it (`run_inj`). `splitRuns` cuts a text into such runs. Characters of
the run that is open are taken into it (`splitRuns_append`), and separators close it, however many they are
(`splitRuns_separators`).
-/

namespace Literate.Text

variable {p : Char → Bool} {run run' rest rest' : List Char}

-- ---------------------------------------------------------------------------
-- One run
-- ---------------------------------------------------------------------------

/-- A rest does not go on with a run if its first character is of another kind. -/
theorem head?_cons_of_not {c : Char} (hc : p c = false) (cs : List Char) :
    ∀ d ∈ (c :: cs).head?, p d = false := by
  rintro d ⟨⟩
  exact hc

theorem takeWhile_run (h : ∀ c ∈ run, p c = true) (hends : ∀ c ∈ rest.head?, p c = false) :
    (run ++ rest).takeWhile p = run := by
  rw [List.takeWhile_append_of_pos h]
  cases rest with
  | nil => rw [List.takeWhile_nil, List.append_nil]
  | cons c rest =>
    have hc : p c = false := hends c rfl
    rw [List.takeWhile_cons_of_neg (by simp [hc]), List.append_nil]

theorem dropWhile_run (h : ∀ c ∈ run, p c = true) (hends : ∀ c ∈ rest.head?, p c = false) :
    (run ++ rest).dropWhile p = rest := by
  rw [List.dropWhile_append_of_pos h]
  cases rest with
  | nil => rfl
  | cons c rest =>
    have hc : p c = false := hends c rfl
    rw [List.dropWhile_cons_of_neg (by simp [hc])]

/-- What is dropped at the end stops at the first character from there that is of another kind. -/
theorem dropEndWhile_append (run : List Char) (hends : ∀ c ∈ rest.getLast?, p c = false)
    (h : ∀ c ∈ run, p c = true) : dropEndWhile p (rest ++ run) = rest := by
  rw [dropEndWhile, List.reverse_append, dropWhile_run (by simpa using h) (by simpa using hends),
    List.reverse_reverse]

/-- A text is cut in one way only into a run and a rest that does not go on with it. -/
theorem run_inj (h : ∀ c ∈ run, p c = true) (h' : ∀ c ∈ run', p c = true)
    (hends : ∀ c ∈ rest.head?, p c = false) (hends' : ∀ c ∈ rest'.head?, p c = false)
    (heq : run ++ rest = run' ++ rest') : run = run' ∧ rest = rest' := by
  refine ⟨?_, ?_⟩
  · rw [← takeWhile_run h hends, heq, takeWhile_run h' hends']
  · rw [← dropWhile_run h hends, heq, dropWhile_run h' hends']

/-- A text that does not end before a separator is what stands before the first one, the separator and a rest. -/
theorem eq_append_of_dropWhile_ne {cs : List Char} {d c : Char} (h : cs.dropWhile (· ≠ d) = c :: rest) :
    cs = cs.takeWhile (· ≠ d) ++ d :: rest := by
  have hseparator : c = d := by
    have hhead := List.head?_dropWhile_not (p := (· ≠ d)) (l := cs)
    rw [h] at hhead
    simpa using hhead
  rw [← hseparator, ← h, hseparator, List.takeWhile_append_dropWhile]

-- ---------------------------------------------------------------------------
-- All runs of a text
-- ---------------------------------------------------------------------------

theorem splitRuns_append (h : ∀ c ∈ run, p c = false) (front rest : List Char) :
    splitRuns p front (run ++ rest) = splitRuns p (run.reverse ++ front) rest := by
  induction run generalizing front with
  | nil => rfl
  | cons c run ih =>
    have hc : ¬p c = true := by simp [h c (List.mem_cons_self ..)]
    rw [List.cons_append, splitRuns, if_neg hc, ih (fun d hd => h d (List.mem_cons_of_mem c hd))]
    simp

/-- Separators in front of the first run are no part of any. -/
theorem splitRuns_nil_separators {gap : List Char} (h : ∀ c ∈ gap, p c = true) (rest : List Char) :
    splitRuns p [] (gap ++ rest) = splitRuns p [] rest := by
  induction gap with
  | nil => rfl
  | cons c gap ih =>
    obtain ⟨hc, hgap⟩ := List.forall_mem_cons.mp h
    rw [List.cons_append, splitRuns, if_pos hc, if_pos (by rfl), ih hgap]

/-- Separators close the run that is open. -/
theorem splitRuns_separators {front gap : List Char} (hfront : front ≠ []) (hgap : gap ≠ [])
    (h : ∀ c ∈ gap, p c = true) (rest : List Char) :
    splitRuns p front (gap ++ rest) = front.reverse :: splitRuns p [] rest := by
  obtain ⟨c, gap, rfl⟩ := List.exists_cons_of_ne_nil hgap
  obtain ⟨hc, hgap⟩ := List.forall_mem_cons.mp h
  have hopen : ¬front.isEmpty = true := by simpa using hfront
  rw [List.cons_append, splitRuns, if_pos hc, if_neg hopen, splitRuns_nil_separators hgap]

end Literate.Text
