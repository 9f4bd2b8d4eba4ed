import Literate.Proofs.Document.AttrText
import Literate.Proofs.Document.Rendering
import Literate.Proofs.Markdown.CodeSpan

/-!
# Blocks of code by the rule

A fenced block opens with a line of at least three backticks, behind which stands its info string, and goes on
to the first line that is a closing fence: at most three spaces, at least as many backticks, and spaces
(`closesFence`). Lines end as Markdown ends them, at a line feed, a carriage return or both (`cutLines`), so a
carriage return would not come back out of a block as what it was. The info string is taken as it stands, without
the escapes and character references that Markdown allows in it, and the block has no indentation.

The fence of a block that is written is longer than every run of backticks in its text, wherever on a line a
run stands, and the fence itself ends the last line of the text. So the last line is the first that closes the
block (`splitAtFence?_append`), and every line of the text is a line of what is read. A text without a line
feed at its end gets one.

Main results:

* `closesFence_iff`: the scanner ends a block where the rule does.
* `readFenced?_render_codeBlock`: what is read of a block that is written.
-/

namespace Literate.Markdown

open Text (longestRun splitFeeds)

-- ---------------------------------------------------------------------------
-- The rule
-- ---------------------------------------------------------------------------

/-- The lines of a text. -/
def cutLines : List Char → List (List Char)
  | [] => [[]]
  | '\n' :: cs => [] :: cutLines cs
  | '\r' :: '\n' :: cs => [] :: cutLines cs
  | '\r' :: cs => [] :: cutLines cs
  | c :: cs =>
    match cutLines cs with
    | [] => [[c]]
    | line :: lines => (c :: line) :: lines

/-- Whether a line closes a block whose fence has `size` backticks. -/
def closesFence (size : Nat) (line : List Char) : Bool :=
  let fence := line.drop (runLength ' ' line)
  runLength ' ' line ≤ 3 && size ≤ runLength '\x60' fence &&
    (fence.drop (runLength '\x60' fence)).all (· = ' ')

/-- The lines before the first that closes the block, and the lines behind that one. -/
def splitAtFence? (size : Nat) : List (List Char) → Option (List (List Char) × List (List Char))
  | [] => none
  | line :: lines =>
    if closesFence size line then some ([], lines)
    else (splitAtFence? size lines).map fun (inner, behind) => (line :: inner, behind)

/-- The fenced block at the front of a text, if one of its lines closes it: the info string, the text, and
the lines behind the closing fence. -/
def readFenced? (cs : List Char) : Option (List Char × List Char × List (List Char)) :=
  match cutLines cs with
  | [] => none
  | opening :: lines =>
    let size := runLength '\x60' opening
    let info := opening.drop size
    if size < 3 || info.contains '\x60' then none
    else (splitAtFence? size lines).map fun (inner, behind) => (info, feeds inner, behind)

theorem cutLines_eq_splitFeeds {cs : List Char} (h : '\r' ∉ cs) : cutLines cs = splitFeeds cs := by
  induction cs with
  | nil => rfl
  | cons c cs ih =>
    rw [List.mem_cons, not_or] at h
    rw [splitFeeds, Text.splitAt, ← splitFeeds, ← ih h.2]
    by_cases hc : c = '\n'
    · subst hc
      rw [if_pos rfl, cutLines]
    · have hreturn : c ≠ '\r' := Ne.symm h.1
      rw [if_neg hc]
      exact cutLines.eq_5 c cs hc (fun _ heq _ => hreturn heq) hreturn

-- ---------------------------------------------------------------------------
-- Lines that close a block, and lines that do not
-- ---------------------------------------------------------------------------

theorem runLength_le_append (c : Char) (cs ds : List Char) : runLength c cs ≤ runLength c (cs ++ ds) := by
  rw [runLength, runLength, List.takeWhile_append]
  split
  · rename_i hall
    rw [List.length_append]
    omega
  · exact Nat.le_refl _

/-- No run that stands anywhere in a text is longer than the longest in the text. -/
theorem runLength_le_longestRun_of_infix {c : Char} {part cs : List Char} (h : part <:+: cs) :
    runLength c part ≤ longestRun c cs := by
  obtain ⟨front, back, rfl⟩ := h
  have hsuffix : part ++ back <:+ front ++ part ++ back := ⟨front, (List.append_assoc ..).symm⟩
  exact (runLength_le_append c part back).trans (runLength_le_longestRun hsuffix)

/-- A line that has no run as long as the fence does not close the block, wherever on it the run is looked
for. -/
theorem closesFence_short {size : Nat} {line : List Char}
    (h : ∀ back, back <:+ line → runLength '\x60' back < size) : closesFence size line = false := by
  have hrun := h _ (List.drop_suffix (runLength ' ' line) line)
  simp [closesFence, Nat.not_le.2 hrun]

/-- The fence itself closes the block. -/
theorem closesFence_fence (size : Nat) :
    closesFence size (List.replicate size '\x60') = true := by
  have hspaces : runLength ' ' (List.replicate size '\x60') = 0 :=
    runLength_eq_zero fun hmem => absurd (List.eq_of_mem_replicate hmem) (by decide)
  have hticks : runLength '\x60' (List.replicate size '\x60') = size := by simp [runLength]
  rw [closesFence, hspaces, List.drop_zero, hticks]
  simp

/-- The scanner ends a block at the lines that close it by the rule. -/
theorem closesFence_iff {size : Nat} {line : List Char} (h : IsLiteral line) (rest : List Char) :
    closesFence size line = true ↔ runLength ' ' line ≤ 3 ∧
      (afterClosingFence? '\x60' size (line.drop (runLength ' ' line) ++ '\n' :: rest)).isSome = true := by
  rw [closesFence]
  generalize hfence : line.drop (runLength ' ' line) = fence
  have hsuffix : fence <:+ line := hfence ▸ List.drop_suffix _ line
  let behind := fence.drop (runLength '\x60' fence)
  have hend : behind.drop (runLength ' ' behind) <:+ line :=
    ((List.drop_suffix _ behind).trans (List.drop_suffix _ fence)).trans hsuffix
  have hliteral : IsLiteral (behind.drop (runLength ' ' behind)) :=
    ⟨fun hmem => h.1 (hend.mem hmem), fun hmem => h.2 (hend.mem hmem)⟩
  have hspaces : (behind.drop (runLength ' ' behind)).isEmpty = behind.all (· = ' ') := by
    rw [Bool.eq_iff_iff, List.isEmpty_iff, drop_runLength_eq_nil_iff]
  rw [afterClosingFence?, if_neg (by simp), runLength_append_feed (by decide),
    dropWhile_append_feed (by decide), dropWhile_append_feed (by decide)]
  dsimp only
  rw [atLineEnd_append_feed hliteral, hspaces, Bool.and_eq_true, Bool.and_eq_true, decide_eq_true_iff,
    decide_eq_true_iff, and_assoc]
  refine and_congr_right fun _ => ?_
  by_cases hsize : size ≤ runLength '\x60' fence
  · rw [if_neg (Nat.not_lt.2 hsize)]
    cases hall : behind.all (· = ' ') with
    | true => simp [hsize]
    | false => simp [hsize]
  · rw [if_pos (Nat.lt_of_not_le hsize)]
    simp [hsize]

/-- A block ends at its last line if no line before it closes it. -/
theorem splitAtFence?_append {size : Nat} {lines : List (List Char)}
    (hlines : ∀ line ∈ lines, closesFence size line = false) {last : List Char}
    (hlast : closesFence size last = true) : splitAtFence? size (lines ++ [last]) = some (lines, []) := by
  induction lines with
  | nil => rw [List.nil_append, splitAtFence?, if_pos hlast]
  | cons line lines ih =>
    obtain ⟨hline, hlines⟩ := List.forall_mem_cons.1 hlines
    rw [List.cons_append, splitAtFence?, if_neg (by simp [hline]), ih hlines]
    rfl

-- ---------------------------------------------------------------------------
-- Blocks that are written
-- ---------------------------------------------------------------------------

/-- The text of a block without a line feed that ends it, which is how it stands above the closing
fence. -/
def fencedBody (cs : List Char) : List Char :=
  if cs.getLast? = some '\n' then cs.dropLast else cs

/-- The text of a block with a line feed at its end. -/
def feedEnded (cs : List Char) : List Char :=
  if cs.getLast? = some '\n' then cs else cs ++ ['\n']

theorem fencedBody_append_feed (cs : List Char) : fencedBody cs ++ ['\n'] = feedEnded cs := by
  rw [fencedBody, feedEnded]
  split
  · rename_i hlast
    exact List.dropLast_append_getLast? _ hlast
  · rfl

theorem fencedBody_isPrefix (cs : List Char) : fencedBody cs <+: cs := by
  rw [fencedBody]
  split
  · exact List.dropLast_prefix cs
  · exact List.prefix_refl cs

/-- How many backticks the fence of a text has. -/
def fenceTicks (cs : List Char) : Nat :=
  max (longestRun '\x60' cs + 1) 3

theorem toList_renderCodeBlock_text (attr : Attr) (text : String) :
    (renderCodeBlock attr text).toList =
      (List.replicate (fenceTicks text.toList) '\x60' ++ infoText attr) ++ '\n' ::
        (fencedBody text.toList ++ '\n' :: List.replicate (fenceTicks text.toList) '\x60') := by
  have hinfo : attr.showNonempty.toList = infoText attr := by
    rw [Attr.showNonempty, infoText]
    cases attr.isEmpty <;> rfl
  have hbody : (if text.toList.getLast? = some '\n' then String.ofList text.toList.dropLast
      else text).toList = fencedBody text.toList := by
    rw [fencedBody]
    split
    · exact String.toList_ofList
    · rfl
  rw [renderCodeBlock]
  simp [hinfo, hbody, toList_repeated, longestTicks, fenceTicks]

/-- No line of a text closes the block that the text is written in. -/
theorem closesFence_of_mem_body {cs line : List Char} (h : line ∈ splitFeeds (fencedBody cs)) :
    closesFence (fenceTicks cs) line = false := by
  have hwithin : line <:+: cs := (Text.infix_of_mem_splitFeeds h).trans (fencedBody_isPrefix cs).isInfix
  refine closesFence_short fun back hback => ?_
  have hrun := runLength_le_longestRun_of_infix (c := '\x60') (hback.isInfix.trans hwithin)
  exact Nat.lt_of_lt_of_le (Nat.lt_succ_of_le hrun) (Nat.le_max_left ..)

/-- The lines of a block that is written: its opening fence, the lines of its text, its closing fence. -/
theorem cutLines_renderCodeBlock (attr : Attr) (text : String) (htext : '\r' ∉ text.toList)
    (hinfo : ∀ c ∈ infoText attr, isLineEnd c = false) :
    cutLines (renderCodeBlock attr text).toList =
      (List.replicate (fenceTicks text.toList) '\x60' ++ infoText attr) ::
        (splitFeeds (fencedBody text.toList) ++ [List.replicate (fenceTicks text.toList) '\x60']) := by
  have hfence (c : Char) (hc : c ≠ '\x60') : c ∉ List.replicate (fenceTicks text.toList) '\x60' :=
    fun hmem => hc (List.eq_of_mem_replicate hmem)
  have hopening (c : Char) (hc : c ≠ '\x60') (hend : isLineEnd c = true) :
      c ∉ List.replicate (fenceTicks text.toList) '\x60' ++ infoText attr := by
    intro hmem
    rcases List.mem_append.1 hmem with hmem | hmem
    · exact hfence c hc hmem
    · rw [hinfo c hmem] at hend
      cases hend
  have hreturn : '\r' ∉ (renderCodeBlock attr text).toList := by
    have hbody : '\r' ∉ fencedBody text.toList := fun hmem => htext ((fencedBody_isPrefix _).subset hmem)
    rw [toList_renderCodeBlock_text]
    refine List.not_mem_append (hopening '\r' (by decide) rfl) ?_
    refine List.not_mem_cons_of_ne_of_not_mem (by decide) (List.not_mem_append hbody ?_)
    exact List.not_mem_cons_of_ne_of_not_mem (by decide) (hfence '\r' (by decide))
  rw [cutLines_eq_splitFeeds hreturn, toList_renderCodeBlock_text, Text.splitFeeds_append_feed,
    Text.splitFeeds_append_feed, Text.splitFeeds_of_notMem (hopening '\n' (by decide) rfl),
    Text.splitFeeds_of_notMem (hfence '\n' (by decide))]
  rfl

/-- The text of a block is the lines that stand between its fences. -/
theorem feeds_splitFeeds_fencedBody (cs : List Char) : feeds (splitFeeds (fencedBody cs)) = feedEnded cs := by
  rw [feeds_eq_joined (Text.splitFeeds_ne_nil _), joined, Text.intercalate_splitFeeds,
    fencedBody_append_feed]

theorem head?_infoText (attr : Attr) : (infoText attr).head? ≠ some '\x60' := by
  rw [infoText]
  split
  · simp
  · rw [Attr.toList_show]
    simp

/-- What is read of a block that is written, before its info string is. -/
theorem readFenced?_renderCodeBlock (attr : Attr) (text : String) (htext : '\r' ∉ text.toList)
    (hinfo : ∀ c ∈ infoText attr, c ≠ '\x60' ∧ isLineEnd c = false) :
    readFenced? (renderCodeBlock attr text).toList = some (infoText attr, feedEnded text.toList, []) := by
  have hrun : runLength '\x60' (List.replicate (fenceTicks text.toList) '\x60' ++ infoText attr) =
      fenceTicks text.toList := runLength_replicate_append _ (head?_infoText attr)
  have hdrop : (List.replicate (fenceTicks text.toList) '\x60' ++ infoText attr).drop
      (fenceTicks text.toList) = infoText attr := List.drop_left' (List.length_replicate ..)
  have hthree : ¬ fenceTicks text.toList < 3 := Nat.not_lt.2 (Nat.le_max_right ..)
  have htick : '\x60' ∉ infoText attr := fun hmem => (hinfo _ hmem).1 rfl
  have hlines : ∀ line ∈ splitFeeds (fencedBody text.toList),
      closesFence (fenceTicks text.toList) line = false := fun _ hline => closesFence_of_mem_body hline
  have hsplit := splitAtFence?_append hlines (closesFence_fence (fenceTicks text.toList))
  rw [readFenced?, cutLines_renderCodeBlock attr text htext fun c hc => (hinfo c hc).2]
  simp only [hrun, hdrop, hsplit]
  simp [hthree, htick, feeds_splitFeeds_fencedBody]

/-- **A block of code that is written** is closed by its last line and by none before it, its info string is
read as its attributes, and its text comes back with a line feed at its end. -/
theorem readFenced?_render_codeBlock (attr : Attr) (text : String) (htext : '\r' ∉ text.toList)
    (hattr : attr.isEmpty = true ∨ Attr.parse? attr.show = some attr)
    (hshow : ∀ c ∈ attr.show.toList, c ≠ '\x60' ∧ isLineEnd c = false) :
    ∃ info, readFenced? (Block.codeBlock attr text).render.toList =
        some (info, if text.toList.getLast? = some '\n' then text.toList else text.toList ++ ['\n'], []) ∧
      Attr.ofInfo (String.ofList info) = attr := by
  refine ⟨infoText attr, readFenced?_renderCodeBlock attr text htext ?_, ?_⟩
  · rw [infoText]
    split
    · exact fun c hc => absurd hc List.not_mem_nil
    · exact hshow
  · rcases hattr with hempty | hparse
    · rw [infoText, if_pos hempty, Attr.eq_empty_of_isEmpty hempty]
      decide
    · exact ofInfo_infoText ((Attr.parse?_show_self_iff attr).1 hparse)

/-- A text with a line that looks like a fence, and classes behind the fence. -/
theorem readFenced?_render_codeBlock_fence :
    ∃ info, readFenced? (Block.codeBlock (.ofClasses ["c"]) "\n\x60\x60\x60\n").render.toList =
        some (info, "\n\x60\x60\x60\n".toList, []) ∧
      Attr.ofInfo (String.ofList info) = .ofClasses ["c"] := by
  have hshow : (Attr.ofClasses ["c"]).show = "\x7b.c\x7d" := by decide +kernel
  have hread := readFenced?_render_codeBlock (.ofClasses ["c"]) "\n\x60\x60\x60\n" (by simp)
    (.inr (by decide +kernel)) (by simp [hshow, isLineEnd])
  rwa [if_pos (by simp)] at hread

end Literate.Markdown
