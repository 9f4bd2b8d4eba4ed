import Literate.Proofs.Markdown.RunLength
import Literate.Proofs.Markdown.TextLine

/-!
# Fenced code

The fence of a block of code is longer than any run of backticks in the text, so no line of the text can
close the block, not even one that is looked at from its middle (`runLength_le_longestRun`). The block is
read line by line, out of whatever stands in front of each line for the containers around it (`Carries`),
and ends at its own fence.

Main result: `readFencedCode_written`.
-/

namespace Literate.Markdown

open Text (longestRun longestRunFrom)

-- ---------------------------------------------------------------------------
-- Lines
-- ---------------------------------------------------------------------------

/-- A line that `wrap` puts into the containers goes on in all of them, and what is left is the line. -/
def Carries (containers : List Container) (wrap : List Char → List Char) : Prop :=
  ∀ line rest, AtEnd rest → ∃ taken column, enterAll? containers (wrap line ++ rest) =
    some ⟨line ++ rest, taken, column, 0⟩

/-- A line of literal text. -/
def IsLiteral (line : List Char) : Prop :=
  '\n' ∉ line ∧ '\r' ∉ line

theorem literalLine_eq {line : List Char} (h : IsLiteral line) :
    literalLine 0 (line ++ ['\n']) = line ++ ['\n'] := by
  have hreverse : '\r' ∉ line.reverse := fun hmem => h.2 (List.mem_reverse.1 hmem)
  rw [literalLine, List.replicate_zero, List.nil_append, List.reverse_append]
  cases hline : line.reverse with
  | nil => rfl
  | cons c cs =>
    have hc : c ≠ '\r' := fun hc => hreverse (hline ▸ hc ▸ List.mem_cons_self ..)
    simp [hc]

/-- Skipping blanks at the front of a line leaves an end of the line. -/
theorem skipBlanks_suffix (taken : List Char) (column pending n : Nat) (line rest : List Char) :
    ∃ back, back <:+ line ∧
      (Cursor.skipBlanks taken column pending n (line ++ '\n' :: rest)).1.rest = back ++ '\n' :: rest := by
  induction line generalizing taken column pending n with
  | nil =>
    refine ⟨[], List.suffix_refl _, ?_⟩
    rw [List.nil_append, Cursor.skipBlanks]
    split <;> simp
  | cons c line ih =>
    rw [List.cons_append, Cursor.skipBlanks]
    split
    · exact ⟨c :: line, List.suffix_refl _, rfl⟩
    · split
      · obtain ⟨back, hback, hrest⟩ := ih (c :: taken) (column + 1) pending (n - 1)
        exact ⟨back, hback.trans (List.suffix_cons c line), hrest⟩
      · split
        · obtain ⟨back, hback, hrest⟩ :=
            ih (c :: taken) 0 (4 - column % 4 - n) (n - (4 - column % 4))
          exact ⟨back, hback.trans (List.suffix_cons c line), hrest⟩
        · exact ⟨c :: line, List.suffix_refl _, rfl⟩

theorem skip_zero (rest : List Char) (hne : rest ≠ []) (taken : List Char) (column : Nat) :
    ((Cursor.mk rest taken column 0).skip 0).1 = ⟨rest, taken, column, 0⟩ := by
  obtain ⟨c, cs, rfl⟩ := List.exists_cons_of_ne_nil hne
  simp [Cursor.skip, Cursor.skipBlanks]

theorem runLength_append_feed {c : Char} (hc : c ≠ '\n') (cs rest : List Char) :
    runLength c (cs ++ '\n' :: rest) = runLength c cs := by
  induction cs with
  | nil => exact runLength_cons_of_ne hc.symm rest
  | cons d cs ih =>
    rw [List.cons_append]
    by_cases hd : d = c
    · rw [runLength_cons_of_eq hd, runLength_cons_of_eq hd, ih]
    · rw [runLength_cons_of_ne hd, runLength_cons_of_ne hd]

theorem dropWhile_append_feed {c : Char} (hc : c ≠ '\n') (cs rest : List Char) :
    (cs ++ '\n' :: rest).dropWhile (· = c) = cs.drop (runLength c cs) ++ '\n' :: rest := by
  induction cs with
  | nil => simp [runLength, hc.symm]
  | cons d cs ih =>
    by_cases hd : d = c
    · rw [runLength_cons_of_eq hd, List.drop_succ_cons, ← ih, List.cons_append,
        List.dropWhile_cons_of_pos (by simpa using hd)]
    · rw [runLength_cons_of_ne hd, List.drop_zero, List.cons_append,
        List.dropWhile_cons_of_neg (by simpa using hd)]

theorem drop_runLength_eq_nil_iff {c : Char} {cs : List Char} :
    cs.drop (runLength c cs) = [] ↔ cs.all (· = c) = true := by
  induction cs with
  | nil => simp
  | cons d cs ih =>
    by_cases hd : d = c
    · rw [runLength_cons_of_eq hd, List.drop_succ_cons, ih]
      simp [hd]
    · rw [runLength_cons_of_ne hd]
      simp [hd]

theorem atLineEnd_append_feed {cs : List Char} (h : IsLiteral cs) (rest : List Char) :
    atLineEnd (cs ++ '\n' :: rest) = cs.isEmpty := by
  cases cs with
  | nil => rfl
  | cons c cs =>
    have hfeed : c ≠ '\n' := by
      rintro rfl
      exact h.1 (List.mem_cons_self ..)
    have hreturn : c ≠ '\r' := by
      rintro rfl
      exact h.2 (List.mem_cons_self ..)
    simp [atLineEnd, afterLineEnd?, hfeed, hreturn]

/-- A line with a run shorter than the fence in front does not close the block. -/
theorem afterClosingFence?_short {mark : Char} (hmark : mark ≠ '\n') {size : Nat} {back : List Char}
    (hrun : runLength mark back < size) (rest : List Char) :
    afterClosingFence? mark size (back ++ '\n' :: rest) = none := by
  rw [afterClosingFence?, if_neg (by simp), if_pos]
  rwa [runLength_append_feed hmark]

/-- The fence of the block itself closes it. -/
theorem afterClosingFence?_fence {mark : Char} (hmark : mark ≠ '\n') {size : Nat} (hsize : size ≠ 0)
    {rest : List Char} (hrest : AtEnd rest) :
    afterClosingFence? mark size (List.replicate size mark ++ rest) = some rest := by
  have hne : (List.replicate size mark ++ rest).isEmpty = false := by
    simp [hsize]
  rw [afterClosingFence?, hne, if_neg Bool.false_ne_true]
  rcases hrest with rfl | ⟨below, rfl⟩
  · have hrun : runLength mark (List.replicate size mark ++ []) = size :=
      runLength_replicate_append size nofun
    rw [hrun, if_neg (Nat.lt_irrefl size), List.append_nil]
    simp [atLineEnd, afterLineEnd?]
  · have hdrop : (List.replicate size mark ++ '\n' :: below).dropWhile (· = mark) = '\n' :: below := by
      rw [List.dropWhile_append_of_pos (by simp), List.dropWhile_cons_of_neg (by simp [hmark.symm])]
    have hrun : runLength mark (List.replicate size mark ++ '\n' :: below) = size :=
      runLength_replicate_append size (by simp [hmark.symm])
    rw [hrun, if_neg (Nat.lt_irrefl size), hdrop, List.dropWhile_cons_of_neg (by simp)]
    rfl

-- ---------------------------------------------------------------------------
-- Blocks of code
-- ---------------------------------------------------------------------------

section

variable {containers : List Container} {wrap : List Char → List Char} {size : Nat}

/-- A line that does not close the block is a line of its text. -/
theorem readFencedCode_line (hwrap : Carries containers wrap) {line : List Char}
    (hline : IsLiteral line) (hshort : ∀ back, back <:+ line → runLength '\x60' back < size)
    (fuel : Nat) (rest : List Char) :
    readFencedCode containers 0 '\x60' size (fuel + 1) (wrap line ++ '\n' :: rest) =
      (line ++ '\n' :: (readFencedCode containers 0 '\x60' size fuel rest).1,
        (readFencedCode containers 0 '\x60' size fuel rest).2) := by
  obtain ⟨taken, column, henter⟩ := hwrap line ('\n' :: rest) (.inr ⟨rest, rfl⟩)
  have hzero := skip_zero (line ++ '\n' :: rest) (by simp) taken column
  obtain ⟨back, hback, hskip⟩ := skipBlanks_suffix taken column 0 4 line rest
  have hopen := afterClosingFence?_short (show '\x60' ≠ '\n' by decide) (hshort back hback) rest
  rcases hinner : (Cursor.mk (line ++ '\n' :: rest) taken column 0).skip 4 with ⟨inner, missing⟩
  have hrest : inner.rest = back ++ '\n' :: rest := by
    rw [← hskip, ← congrArg (·.1.rest) hinner]
    rfl
  have hsplit := splitLine_append hline.1 rest
  rw [readFencedCode, henter]
  simp only [hzero, Nat.sub_zero, hinner, hrest, hopen, ite_self, hsplit, literalLine_eq hline]
  simp

/-- The fence ends the block. -/
theorem readFencedCode_fence (hwrap : Carries containers wrap) (hsize : size ≠ 0) (fuel : Nat)
    {lineEnd rest : List Char} (hend : EndsLine lineEnd rest) :
    readFencedCode containers 0 '\x60' size (fuel + 1)
      (wrap (List.replicate size '\x60') ++ (lineEnd ++ rest)) = ([], rest) := by
  obtain ⟨taken, column, henter⟩ := hwrap (List.replicate size '\x60') _ hend.atEnd
  have hzero := skip_zero (List.replicate size '\x60' ++ (lineEnd ++ rest)) (by simp [hsize]) taken column
  have hclose := afterClosingFence?_fence (show '\x60' ≠ '\n' by decide) hsize hend.atEnd
  have hbelow : dropBlankLine (lineEnd ++ rest) = rest := by cases hend <;> rfl
  obtain ⟨n, rfl⟩ := Nat.exists_eq_succ_of_ne_zero hsize
  have hskip := skip_of_not_isGap (c := '\x60') rfl (List.replicate n '\x60' ++ (lineEnd ++ rest)) taken
    column (n := 4) (by omega)
  rw [← List.cons_append, ← List.replicate_succ] at hskip
  rw [readFencedCode, henter]
  simp only [hzero, Nat.sub_zero, hskip, hclose]
  exact congrArg (([] : List Char), ·) hbelow

/-- The lines of a block of code are read up to its fence. -/
theorem readFencedCode_written (hwrap : Carries containers wrap) {lines : List (List Char)}
    (hlines : ∀ line ∈ lines, IsLiteral line) (hsize : longestRun '\x60' (feeds lines) < size)
    (fuel : Nat) (hfuel : lines.length < fuel) {lineEnd tail : List Char} (hend : EndsLine lineEnd tail) :
    readFencedCode containers 0 '\x60' size fuel
        (feeds (lines.map wrap) ++ (wrap (List.replicate size '\x60') ++ (lineEnd ++ tail))) =
      (feeds lines, tail) := by
  induction lines generalizing fuel with
  | nil =>
    obtain ⟨fuel, rfl⟩ : ∃ n, fuel = n + 1 := ⟨fuel - 1, by simp at hfuel; omega⟩
    exact readFencedCode_fence hwrap (by omega) fuel hend
  | cons line lines ih =>
    obtain ⟨fuel, rfl⟩ : ∃ n, fuel = n + 1 := ⟨fuel - 1, by simp at hfuel; omega⟩
    have hline := hlines line (List.mem_cons_self ..)
    have hshort : ∀ back, back <:+ line → runLength '\x60' back < size := by
      rintro back ⟨front, rfl⟩
      have hsuffix : back ++ '\n' :: feeds lines <:+ feeds ((front ++ back) :: lines) :=
        ⟨front, by rw [feeds_cons, List.append_assoc]⟩
      have hrun := runLength_le_longestRun (c := '\x60') hsuffix
      rw [runLength_append_feed (by decide)] at hrun
      omega
    have hless : longestRun '\x60' (feeds lines) < size := by
      have hsuffix := longestRunFrom_suffix '\x60' 0 (line ++ ['\n']) (feeds lines)
      rw [List.append_assoc, List.singleton_append, ← feeds_cons] at hsuffix
      exact Nat.lt_of_le_of_lt hsuffix hsize
    have hrest := ih (fun other hother => hlines other (List.mem_cons_of_mem line hother)) hless fuel
      (by simpa using hfuel)
    rw [List.map_cons, feeds_cons, List.append_assoc, List.cons_append,
      readFencedCode_line hwrap hline hshort, hrest, feeds_cons]

end

end Literate.Markdown
