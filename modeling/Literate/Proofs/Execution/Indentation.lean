import Literate.Execution.Dispatch
import Mathlib

/-!
# Blank lines in suites

Normalizing goes over lines with the level of the line that was last not blank, and looks ahead from each
blank line inside a suite. What it comes to can be said line by line: what becomes of a line depends on the
lines next to it that are not blank, one on either side (`repaired`). Of these only the level counts, and
levels stay as they are, so that normalizing once is enough.

A suite is open behind a line that is indented at all, but a level is four blanks wide, and lines that are
indented by less are at level 0. A blank line behind such a line is sent as it is, and a block that ends with
one is not closed.

Main results:

* `normalize_eq`: normalizing, line by line.
* `normalize_blank_lines`: which lines change, and to what; a second time none does.
* `Dispatch.suites_sent_iff`: when a blank line in a code block keeps a suite open, and when the block closes
  the last one.
-/

namespace Literate.Indentation

open Text (isBlank isBlankText repeated)

variable {lines lines' : List String} {i : Nat} {line before behind : String}

-- ---------------------------------------------------------------------------
-- The lines around a line
-- ---------------------------------------------------------------------------

/-- The first line that is not blank. -/
def nextLine? (lines : List String) : Option String :=
  lines.find? fun line => !isBlankText line

/-- The last line in front of a position that is not blank. -/
def lineBefore? (lines : List String) (i : Nat) : Option String :=
  nextLine? (lines.take i).reverse

/-- The first line behind a position that is not blank. -/
def lineBehind? (lines : List String) (i : Nat) : Option String :=
  nextLine? (lines.drop (i + 1))

/-- The level of the last line in front of a position that is not blank, or none. -/
def levelBefore (lines : List String) (i : Nat) : Nat :=
  ((lineBefore? lines i).map level).getD 0

/-- The level of the first line behind a position that is not blank, or none. -/
def levelBehind (lines : List String) (i : Nat) : Nat :=
  ((lineBehind? lines i).map level).getD 0

theorem nextLevel_cons_of_blank (h : isBlankText line = true) :
    nextLevel (line :: lines) = nextLevel lines := by
  rw [nextLevel, List.find?_cons_of_neg (by simp [h]), nextLevel]

theorem nextLevel_cons_of_not_blank (h : isBlankText line = false) :
    nextLevel (line :: lines) = level line := by
  rw [nextLevel, List.find?_cons_of_pos (by simp [h])]
  rfl

theorem levelBefore_append (front behind : List String) :
    levelBefore (front ++ behind) front.length = nextLevel front.reverse := by
  rw [levelBefore, lineBefore?, List.take_left]
  rfl

theorem levelBehind_append (front behind : List String) :
    levelBehind (front ++ line :: behind) front.length = nextLevel behind := by
  rw [levelBehind, lineBehind?, List.drop_length_add_append]
  rfl

-- ---------------------------------------------------------------------------
-- Line by line
-- ---------------------------------------------------------------------------

/-- What becomes of the line at a position. -/
def repaired (lines : List String) (i : Nat) (line : String) : String :=
  if isBlankText line = true ∧ levelBefore lines i ≠ 0 then repeated (4 * levelBehind lines i) ' ' else line

/-- The level that is carried on behind lines is that of the last of them that is not blank. -/
theorem normalizeFrom_eq (front lines : List String) :
    normalizeFrom (nextLevel front.reverse) lines =
      lines.mapIdx fun i line => repaired (front ++ lines) (front.length + i) line := by
  induction lines generalizing front with
  | nil => rfl
  | cons line lines ih =>
    have hrest : normalizeFrom (nextLevel (line :: front.reverse)) lines =
        lines.mapIdx fun i next => repaired (front ++ line :: lines) (front.length + (i + 1)) next := by
      have hfront := ih (front ++ [line])
      simpa [Nat.add_assoc, Nat.add_comm 1] using hfront
    rw [List.mapIdx_cons, normalizeFrom, repaired, Nat.add_zero, levelBefore_append, levelBehind_append,
      ← hrest]
    by_cases hblank : isBlankText line = true
    · rw [if_pos hblank, nextLevel_cons_of_blank hblank, width, Nat.mul_comm]
      by_cases hlevel : nextLevel front.reverse = 0 <;> simp [hblank, hlevel]
    · rw [if_neg hblank, nextLevel_cons_of_not_blank (by simpa using hblank), if_neg fun h => hblank h.1]

theorem normalize_eq (lines : List String) : normalize lines = lines.mapIdx (repaired lines) := by
  have hall := normalizeFrom_eq [] lines
  simp only [List.nil_append, List.length_nil, Nat.zero_add] at hall
  exact hall

theorem getElem?_normalize (h : lines[i]? = some line) :
    (normalize lines)[i]? = some (repaired lines i line) := by
  rw [normalize_eq, List.getElem?_mapIdx, h, Option.map_some]

-- ---------------------------------------------------------------------------
-- Levels
-- ---------------------------------------------------------------------------

/-- The level of a line that is not blank. -/
def level? (line : String) : Option Nat :=
  if isBlankText line then none else some (level line)

theorem isBlankText_spaces (n : Nat) : isBlankText (repeated n ' ') = true := by
  rw [isBlankText, repeated, String.toList_ofList, List.all_eq_true]
  intro c hc
  rw [List.eq_of_mem_replicate hc]
  decide

/-- Blank lines stay blank, and no other line changes. -/
theorem level?_repaired (lines : List String) (i : Nat) (line : String) :
    level? (repaired lines i line) = level? line := by
  rw [repaired]
  split
  · rename_i h
    rw [level?, if_pos (isBlankText_spaces _), level?, if_pos h.1]
  · rfl

theorem map_level?_normalize (lines : List String) : (normalize lines).map level? = lines.map level? := by
  refine List.ext_getElem? fun i => ?_
  rw [normalize_eq, List.getElem?_map, List.getElem?_mapIdx, List.getElem?_map]
  cases lines[i]? with
  | none => rfl
  | some line => rw [Option.map_some, Option.map_some, Option.map_some, level?_repaired]

theorem nextLevel_eq (lines : List String) : nextLevel lines = ((lines.map level?).findSome? id).getD 0 := by
  induction lines with
  | nil => rfl
  | cons line lines ih =>
    rw [List.map_cons, List.findSome?_cons, level?]
    by_cases hblank : isBlankText line = true
    · rw [if_pos hblank, nextLevel_cons_of_blank hblank, ih]
      rfl
    · rw [if_neg hblank, nextLevel_cons_of_not_blank (by simpa using hblank)]
      rfl

/-- Of the lines around a line only the levels count. -/
theorem repaired_congr (h : lines.map level? = lines'.map level?) : repaired lines = repaired lines' := by
  have hbefore (i : Nat) : levelBefore lines i = levelBefore lines' i := by
    show nextLevel _ = nextLevel _
    simp only [nextLevel_eq, List.map_reverse, List.map_take, h]
  have hbehind (i : Nat) : levelBehind lines i = levelBehind lines' i := by
    show nextLevel _ = nextLevel _
    simp only [nextLevel_eq, List.map_drop, h]
  funext i line
  rw [repaired, repaired, hbefore, hbehind]

theorem repaired_repaired (lines : List String) (i : Nat) (line : String) :
    repaired lines i (repaired lines i line) = repaired lines i line := by
  by_cases h : isBlankText line = true ∧ levelBefore lines i ≠ 0
  · have hspaces : repaired lines i line = repeated (4 * levelBehind lines i) ' ' := if_pos h
    rw [hspaces, repaired, if_pos ⟨isBlankText_spaces _, h.2⟩]
  · have hkept : repaired lines i line = line := if_neg h
    rw [hkept, hkept]

theorem normalize_normalize (lines : List String) : normalize (normalize lines) = normalize lines := by
  rw [normalize_eq (normalize lines), repaired_congr (map_level?_normalize lines), normalize_eq,
    List.mapIdx_mapIdx]
  exact congrArg (lines.mapIdx ·) (funext fun i => funext (repaired_repaired lines i))

/-- **Blank lines.** There are as many lines as before. A line that is not blank stays as it is, and so does a
blank one if the line before it that is not blank, if there is one, is at level 0. Every other blank line
becomes four spaces for each level of the next line that is not blank, and empty if there is none. No level
changes, and a second time no line does. -/
theorem normalize_blank_lines (lines : List String) :
    (normalize lines).length = lines.length ∧
    (∀ (i : Nat) (line : String), lines[i]? = some line → isBlankText line = false →
      (normalize lines)[i]? = some line) ∧
    (∀ (i : Nat) (line : String), lines[i]? = some line → isBlankText line = true →
      (levelBefore lines i = 0 → (normalize lines)[i]? = some line) ∧
      (levelBefore lines i ≠ 0 →
        (normalize lines)[i]? = some (repeated (4 * levelBehind lines i) ' '))) ∧
    normalize (normalize lines) = normalize lines ∧
    (normalize lines).map level? = lines.map level? := by
  refine ⟨?_, ?_, ?_, normalize_normalize lines, map_level?_normalize lines⟩
  · rw [normalize_eq, List.length_mapIdx]
  · intro i line hline hblank
    rw [getElem?_normalize hline, repaired, if_neg (by simp [hblank])]
  · intro i line hline hblank
    rw [getElem?_normalize hline, repaired]
    exact ⟨fun hlevel => by rw [if_neg fun h => h.2 hlevel], fun hlevel => by rw [if_pos ⟨hblank, hlevel⟩]⟩

/-- A blank line in a suite goes with the line behind it, one behind the suite is emptied, and one outside of
any is kept. -/
theorem normalize_blank_lines_nested :
    let lines := ["if a:", "    if b:", "        c", "", "    d", "  ", "e", "\t"]
    (lines[2]? = some "        c" ∧ isBlankText "        c" = false ∧
      (normalize lines)[2]? = some "        c") ∧
    (lines[3]? = some "" ∧ isBlankText "" = true ∧ levelBefore lines 3 = 2 ∧
      (normalize lines)[3]? = some "    ") ∧
    (lines[5]? = some "  " ∧ isBlankText "  " = true ∧ levelBefore lines 5 = 1 ∧
      (normalize lines)[5]? = some "") ∧
    lines[7]? = some "\t" ∧ isBlankText "\t" = true ∧ levelBefore lines 7 = 0 ∧
      (normalize lines)[7]? = some "\t" := by
  intro lines
  obtain ⟨-, hkept, hblank, -⟩ := normalize_blank_lines lines
  have hthree : levelBefore lines 3 = 2 := by decide +kernel
  have hfive : levelBefore lines 5 = 1 := by decide +kernel
  have hseven : levelBefore lines 7 = 0 := by decide +kernel
  refine ⟨⟨rfl, by decide +kernel, hkept 2 _ rfl (by decide +kernel)⟩,
    ⟨rfl, by decide +kernel, hthree, ?_⟩, ⟨rfl, by decide +kernel, hfive, ?_⟩,
    rfl, by decide +kernel, hseven, (hblank 7 _ rfl (by decide +kernel)).1 hseven⟩
  · rw [(hblank 3 _ rfl (by decide +kernel)).2 (by omega)]
    decide +kernel
  · rw [(hblank 5 _ rfl (by decide +kernel)).2 (by omega)]
    decide +kernel

-- ---------------------------------------------------------------------------
-- Suites
-- ---------------------------------------------------------------------------

/-- By how many blanks a line is indented. -/
def indent (line : String) : Nat :=
  (line.toList.takeWhile isBlank).length

/-- Whether a line is made of spaces, of which it has at least one. -/
def IsSpaces (line : String) : Prop :=
  line ≠ "" ∧ ∀ c ∈ line.toList, c = ' '

instance (line : String) : Decidable (IsSpaces line) :=
  inferInstanceAs (Decidable (_ ∧ _))

theorem level_pos_iff : 0 < level line ↔ 4 ≤ indent line :=
  Nat.div_pos_iff.trans (and_iff_right (by decide))

theorem level_eq_zero_iff : level line = 0 ↔ indent line < 4 :=
  Nat.div_eq_zero_iff_lt (by decide)

/-- A blank line with its nearest lines on both sides that are not blank. -/
structure Between (lines : List String) (i : Nat) (before line behind : String) : Prop where
  stands : lines[i]? = some line
  blank : isBlankText line = true
  before : lineBefore? lines i = some before
  behind : lineBehind? lines i = some behind

theorem isSpaces_repeated {n : Nat} : IsSpaces (repeated n ' ') ↔ 0 < n := by
  have hempty : repeated n ' ' = "" ↔ n = 0 := by
    rw [← String.toList_inj, repeated, String.toList_ofList, String.toList_empty, List.replicate_eq_nil_iff]
  have hspaces : ∀ c ∈ (repeated n ' ').toList, c = ' ' := by
    rw [repeated, String.toList_ofList]
    exact fun c => List.eq_of_mem_replicate
  rw [IsSpaces, Ne, hempty, Nat.pos_iff_ne_zero]
  exact and_iff_left hspaces

/-- An empty line behind lines is behind all of them. -/
theorem Between.append_empty (h : Between lines i before line behind) :
    Between (lines ++ [""]) i before line behind := by
  have hlt : i < lines.length := (List.getElem?_eq_some_iff.mp h.stands).1
  refine ⟨?_, h.blank, ?_, ?_⟩
  · rw [List.getElem?_append_left hlt]
    exact h.stands
  · rw [lineBefore?, List.take_append_of_le_length hlt.le]
    exact h.before
  · have hbehind := h.behind
    rw [lineBehind?, nextLine?] at hbehind
    rw [lineBehind?, nextLine?, List.drop_append_of_le_length hlt, List.find?_append, hbehind]
    rfl

theorem Between.closeSuite (h : Between lines i before line behind) :
    Between (closeSuite lines) i before line behind := by
  rw [Indentation.closeSuite]
  split
  · exact h.append_empty
  · exact h

theorem Between.getElem?_normalize (h : Between lines i before line behind) :
    (normalize lines)[i]? =
      some (if level before = 0 then line else repeated (4 * level behind) ' ') := by
  have hbefore : levelBefore lines i = level before := by rw [levelBefore, h.before]; rfl
  have hbehind : levelBehind lines i = level behind := by rw [levelBehind, h.behind]; rfl
  rw [Indentation.getElem?_normalize h.stands, repaired, hbefore, hbehind]
  by_cases hlevel : level before = 0 <;> simp [hlevel, h.blank]

theorem Between.isSpaces_iff (h : Between lines i before line behind) :
    (∃ sent, (normalize lines)[i]? = some sent ∧ IsSpaces sent) ↔
      4 ≤ indent before ∧ 4 ≤ indent behind ∨ indent before < 4 ∧ IsSpaces line := by
  simp only [h.getElem?_normalize, Option.some.injEq, exists_eq_left']
  split
  · rename_i hlevel
    have hnarrow := level_eq_zero_iff.mp hlevel
    simp [hnarrow, Nat.not_le.mpr hnarrow]
  · rename_i hlevel
    have hwide := level_pos_iff.mp (Nat.pos_of_ne_zero hlevel)
    have hpos : 0 < 4 * level behind ↔ 4 ≤ indent behind := by rw [← level_pos_iff]; omega
    rw [isSpaces_repeated, hpos]
    simp [hwide, Nat.not_lt.mpr hwide]

/-- The last line stays if no suite is open behind all lines. -/
theorem getLast?_normalize (h : nextLevel lines.reverse = 0) :
    (normalize lines).getLast? = lines.getLast? := by
  rcases List.eq_nil_or_concat lines with rfl | ⟨front, last, rfl⟩
  · rfl
  · rw [List.concat_eq_append] at h ⊢
    rw [normalize_eq, List.mapIdx_concat, List.getLast?_concat, List.getLast?_concat, repaired,
      levelBefore_append, if_neg]
    rintro ⟨hblank, hlevel⟩
    rw [List.reverse_append, List.reverse_singleton, List.singleton_append,
      nextLevel_cons_of_blank hblank] at h
    exact hlevel h

/-- An empty line behind all others stays empty. -/
theorem getLast?_normalize_append_empty (lines : List String) :
    (normalize (lines ++ [""])).getLast? = some "" := by
  rw [normalize_eq, List.mapIdx_concat, List.getLast?_concat, repaired, levelBehind_append]
  split <;> rfl

/-- The lines of a block end with an empty one if it was added, or if it was there. -/
theorem getLast?_normalize_closeSuite :
    (normalize (closeSuite lines)).getLast? = some "" ↔
      0 < nextLevel lines.reverse ∨ lines.getLast? = some "" := by
  rw [closeSuite]
  split
  · rename_i hlevel
    simp [getLast?_normalize_append_empty, hlevel]
  · rename_i hlevel
    rw [getLast?_normalize (by omega)]
    simp [hlevel]

end Literate.Indentation

namespace Literate.Dispatch

open Indentation (indent nextLine? Between IsSpaces normalize)

variable {shorthands : List String} {attr : Attr} {text : String} {batch : Batch}

theorem lines_of_batch? (h : batch? shorthands (.block (.codeBlock attr text)) = some batch) :
    batch.lines = blockLines text := by
  rw [batch?] at h
  split at h
  · cases h
  · cases h
    rfl

/-- **Suites in a code block that runs.** A blank line between two others is sent as a line of spaces, and so
keeps their suite open, exactly if the lines next to it that are not blank are both indented by four blanks or
more, or the one in front is indented by less and the blank line is made of spaces itself. The last line that
is sent is empty, and so ends the suite that is open, exactly if the last line that is not blank is indented by
four blanks or more, or the last line of the block is empty itself. -/
theorem suites_sent_iff (h : batch? shorthands (.block (.codeBlock attr text)) = some batch) :
    (∀ i before line behind, Between (Text.lines text) i before line behind →
      ((∃ sent, (normalize batch.lines)[i]? = some sent ∧ IsSpaces sent) ↔
        4 ≤ indent before ∧ 4 ≤ indent behind ∨ indent before < 4 ∧ IsSpaces line)) ∧
    ∀ last, nextLine? (Text.lines text).reverse = some last →
      ((normalize batch.lines).getLast? = some "" ↔
        4 ≤ indent last ∨ (Text.lines text).getLast? = some "") := by
  rw [lines_of_batch? h, blockLines]
  refine ⟨fun i before line behind hbetween => hbetween.closeSuite.isSpaces_iff, fun last hlast => ?_⟩
  have hlevel : Indentation.nextLevel (Text.lines text).reverse = Indentation.level last := by
    show ((nextLine? _).map Indentation.level).getD 0 = _
    rw [hlast]
    rfl
  rw [Indentation.getLast?_normalize_closeSuite, hlevel, Indentation.level_pos_iff]

/-- A suite that is indented by four blanks goes on behind an empty line, and is closed. -/
theorem suites_sent_iff_wide :
    let text := "for i in x:\n    a\n\n    b\n"
    let batch : Batch := ⟨["for i in x:", "    a", "", "    b", ""], false, false⟩
    batch? [] (.block (.codeBlock ⟨"", ["python"], []⟩ text)) = some batch ∧
      Between (Text.lines text) 2 "    a" "" "    b" ∧
      nextLine? (Text.lines text).reverse = some "    b" ∧
      (∃ sent, (normalize batch.lines)[2]? = some sent ∧ IsSpaces sent) ∧
      (normalize batch.lines).getLast? = some "" := by
  intro text batch
  have hbatch : batch? [] (.block (.codeBlock ⟨"", ["python"], []⟩ text)) = some batch := by decide +kernel
  have hbetween : Between (Text.lines text) 2 "    a" "" "    b" :=
    ⟨by decide +kernel, by decide +kernel, by decide +kernel, by decide +kernel⟩
  have hlast : nextLine? (Text.lines text).reverse = some "    b" := by decide +kernel
  obtain ⟨hopen, hclosed⟩ := suites_sent_iff hbatch
  exact ⟨hbatch, hbetween, hlast, (hopen _ _ _ _ hbetween).mpr (.inl (by decide +kernel)),
    (hclosed _ hlast).mpr (.inl (by decide +kernel))⟩

/-- A suite that is indented by two blanks ends at an empty line in it, and is left open by the last line. -/
theorem suites_sent_narrow :
    let text := "for i in x:\n  a\n\n  b\n"
    ∃ batch, batch? [] (.block (.codeBlock ⟨"", ["python"], []⟩ text)) = some batch ∧
      Between (Text.lines text) 2 "  a" "" "  b" ∧ 0 < indent "  a" ∧ 0 < indent "  b" ∧
      nextLine? (Text.lines text).reverse = some "  b" ∧
      (normalize batch.lines)[2]? = some "" ∧ ¬ IsSpaces "" ∧
      (normalize batch.lines).getLast? = some "  b" := by
  refine ⟨⟨["for i in x:", "  a", "", "  b"], false, false⟩, by decide +kernel,
    ⟨by decide +kernel, by decide +kernel, by decide +kernel, by decide +kernel⟩, ?_⟩
  decide +kernel

end Literate.Dispatch
