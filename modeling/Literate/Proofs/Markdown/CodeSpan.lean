import Literate.Document.Render
import Literate.Markdown.Phrase
import Literate.Proofs.Markdown.RunLength

/-!
# Code spans

A code span opens with a run of backticks and closes with the first later run of the same length
(`readCodeSpan?`); whatever other runs stand between belong to its text. The fence of a span that is
written is longer than any run of the text, and the spaces that set a backtick at either end apart are the
ones that reading takes off again.

What cannot be written is an empty text, whose two fences would be one run, and a text with a space at both
ends, which are taken off as if they set something apart (`HasOuterSpaces`).

Main result: `readCodeSpan?_render_code`.
-/

namespace Literate.Markdown

open Text (longestRun longestRunFrom repeated)

-- ---------------------------------------------------------------------------
-- The rule
-- ---------------------------------------------------------------------------

/-- The text before the first run of exactly `size` backticks, and what stands behind that run. The text
begins with `run` backticks, which stand before `cs`. -/
def splitAtRun? (size : Nat) : Nat → List Char → Option (List Char × List Char)
  | run, [] => if run = size then some ([], []) else none
  | run, c :: cs =>
    if c = '\x60' then splitAtRun? size (run + 1) cs
    else if run = size then some ([], c :: cs)
    else (splitAtRun? size 0 cs).map fun (inner, rest) =>
      (List.replicate run '\x60' ++ c :: inner, rest)

/-- The text of the code span at the front of a text, and what follows it. -/
def readCodeSpan? (cs : List Char) : Option (List Char × List Char) :=
  let size := runLength '\x60' cs
  if size = 0 then none
  else (splitAtRun? size 0 (cs.drop size)).map fun (inner, rest) => (codeText false inner, rest)

-- ---------------------------------------------------------------------------
-- Runs
-- ---------------------------------------------------------------------------

/-- What stands before the first backtick belongs to the text. -/
theorem splitAtRun?_plain {size : Nat} (hsize : size ≠ 0) {front : List Char} (h : '\x60' ∉ front)
    (cs : List Char) : splitAtRun? size 0 (front ++ cs) =
      (splitAtRun? size 0 cs).map fun span => (front ++ span.1, span.2) := by
  induction front with
  | nil => exact Option.map_id'.symm
  | cons c front ih =>
    rw [List.mem_cons, not_or] at h
    rw [List.cons_append, splitAtRun?, if_neg (Ne.symm h.1), if_neg hsize.symm, ih h.2, Option.map_map]
    rfl

/-- A whole run ends the text if it has the right size, and belongs to it otherwise. -/
theorem splitAtRun?_run {size : Nat} (hsize : size ≠ 0) {cs : List Char} (hends : cs.head? ≠ some '\x60')
    (run more : Nat) : splitAtRun? size run (List.replicate more '\x60' ++ cs) =
      if run + more = size then some ([], cs)
      else (splitAtRun? size 0 cs).map fun span => (List.replicate (run + more) '\x60' ++ span.1, span.2) := by
  induction more generalizing run with
  | zero =>
    rw [List.replicate_zero, List.nil_append, Nat.add_zero]
    cases cs with
    | nil =>
      rw [splitAtRun?, splitAtRun?, if_neg hsize.symm]
      rfl
    | cons c cs =>
      have hc : c ≠ '\x60' := fun hc => hends (congrArg some hc)
      rw [splitAtRun?, splitAtRun?, if_neg hc, if_neg hc, if_neg hsize.symm, Option.map_map]
      rfl
  | succ more ih =>
    rw [List.replicate_succ, List.cons_append, splitAtRun?, if_pos rfl, ih, Nat.add_right_comm,
      Nat.add_assoc]

/-- A text whose runs are shorter than the fence, and which does not end in a backtick, is read up to the
fence. -/
theorem splitAtRun?_append {size run : Nat} {inner rest : List Char}
    (hshort : longestRunFrom '\x60' run inner < size) (hlast : inner.getLast? ≠ some '\x60')
    (hrun : inner = [] → run = 0) (hends : rest.head? ≠ some '\x60') :
    splitAtRun? size run (inner ++ (List.replicate size '\x60' ++ rest)) =
      some (List.replicate run '\x60' ++ inner, rest) := by
  induction inner generalizing run with
  | nil =>
    obtain rfl := hrun rfl
    have hsize : size ≠ 0 := Nat.ne_of_gt (Nat.zero_lt_of_lt hshort)
    have hclose := splitAtRun?_run hsize hends 0 size
    rwa [if_pos (Nat.zero_add size)] at hclose
  | cons c inner ih =>
    have hlater : inner.getLast? ≠ some '\x60' := by
      cases inner with
      | nil => simp
      | cons d inner => rwa [List.getLast?_cons_cons] at hlast
    rw [longestRunFrom] at hshort
    rw [List.cons_append, splitAtRun?]
    -- A backtick makes the run longer; anything else ends one that is too short to close the span.
    by_cases hc : c = '\x60'
    · subst hc
      have hne : inner ≠ [] := by
        rintro rfl
        exact hlast rfl
      rw [if_pos rfl] at hshort ⊢
      rw [ih hshort hlater fun h => absurd h hne, List.replicate_succ', List.append_assoc]
      rfl
    · rw [if_neg hc] at hshort ⊢
      rw [if_neg (by omega), ih (by omega) hlater fun _ => rfl]
      rfl

-- ---------------------------------------------------------------------------
-- Spans that are written
-- ---------------------------------------------------------------------------

/-- The text of a span as it is set between the fences. -/
def padded (cs : List Char) : List Char :=
  if cs.head? = some '\x60' ∨ cs.getLast? = some '\x60' then ' ' :: (cs ++ [' ']) else cs

theorem toList_renderCode (text : String) :
    (renderCode .empty text).toList =
      List.replicate (longestTicks text + 1) '\x60' ++
        (padded text.toList ++ List.replicate (longestTicks text + 1) '\x60') := by
  have hshow : Attr.showNonempty .empty = "" := rfl
  rw [renderCode, padded, hshow]
  by_cases h : text.toList.head? = some '\x60' ∨ text.toList.getLast? = some '\x60'
  · simp [repeated, h]
  · simp [repeated, h]

theorem longestRunFrom_append_singleton {c d : Char} (hd : d ≠ c) (run : Nat) (cs : List Char) :
    longestRunFrom c run (cs ++ [d]) = longestRunFrom c run cs := by
  induction cs generalizing run with
  | nil => simp [longestRunFrom, hd]
  | cons e cs ih => simp only [List.cons_append, longestRunFrom, ih]

theorem longestRun_padded (cs : List Char) :
    longestRun '\x60' (padded cs) = longestRun '\x60' cs := by
  rw [padded]
  split_ifs
  · rw [longestRun, longestRunFrom, if_neg (by decide), Nat.zero_max,
      longestRunFrom_append_singleton (by decide), longestRun]
  · rfl

theorem head?_padded (cs : List Char) : (padded cs).head? ≠ some '\x60' := by
  rw [padded]
  split_ifs with h
  · simp
  · exact fun hhead => h (.inl hhead)

theorem getLast?_padded (cs : List Char) : (padded cs).getLast? ≠ some '\x60' := by
  rw [padded]
  split_ifs with h
  · rw [← List.cons_append, List.getLast?_concat]
    simp
  · exact fun hlast => h (.inr hlast)

theorem padded_eq_nil_iff {cs : List Char} : padded cs = [] ↔ cs = [] := by
  rw [padded]
  split
  · rename_i h
    have hne : cs ≠ [] := by
      rintro rfl
      simp at h
    exact iff_of_false (List.cons_ne_nil _ _) hne
  · rfl

/-- The opening fence of a span is a run by itself. -/
theorem runLength_renderCode {text : String} (h : text ≠ "") (rest : List Char) :
    runLength '\x60' ((renderCode .empty text).toList ++ rest) = longestTicks text + 1 := by
  have hne : padded text.toList ≠ [] := by
    rw [ne_eq, padded_eq_nil_iff]
    simpa using h
  have hhead : (padded text.toList ++ (List.replicate (longestTicks text + 1) '\x60' ++ rest)).head? ≠
      some '\x60' := by
    rw [List.head?_append_of_ne_nil _ hne]
    exact head?_padded _
  rw [toList_renderCode, List.append_assoc, List.append_assoc, runLength_replicate_append _ hhead]

/-- A span goes on to its own closing fence, whatever stands behind that. -/
theorem splitAtRun?_renderCode (text : String) {rest : List Char} (hends : rest.head? ≠ some '\x60') :
    splitAtRun? (longestTicks text + 1) 0
        (((renderCode .empty text).toList ++ rest).drop (longestTicks text + 1)) =
      some (padded text.toList, rest) := by
  have hshort : longestRunFrom '\x60' 0 (padded text.toList) < longestTicks text + 1 := by
    rw [← longestRun, longestRun_padded]
    exact Nat.lt_succ_self _
  rw [toList_renderCode, List.append_assoc, List.append_assoc, List.drop_left' (List.length_replicate ..)]
  exact splitAtRun?_append hshort (getLast?_padded _) (fun _ => rfl) hends

theorem readCodeSpan?_padded {text : String} (h : text ≠ "") :
    readCodeSpan? (renderCode .empty text).toList = some (codeText false (padded text.toList), []) := by
  have hlength := runLength_renderCode h []
  have hsplit := @splitAtRun?_renderCode text [] (by simp)
  rw [List.append_nil] at hlength hsplit
  rw [readCodeSpan?, hlength, if_neg (Nat.succ_ne_zero _), hsplit]
  rfl

/-- Without a text between them, the two fences are one run that nothing closes. -/
theorem readCodeSpan?_empty : readCodeSpan? (renderCode .empty "").toList = none := by
  decide

/-- A text that begins and ends with a space and is more than spaces: reading takes a space off both
ends. -/
def HasOuterSpaces (cs : List Char) : Prop :=
  cs.head? = some ' ' ∧ cs.getLast? = some ' ' ∧ ∃ c ∈ cs, c ≠ ' '

instance (cs : List Char) : Decidable (HasOuterSpaces cs) :=
  inferInstanceAs (Decidable (_ ∧ _ ∧ _))

theorem codeText_eq {cs : List Char} (h : ∀ c ∈ cs, isLineEnd c = false) :
    codeText false cs = if HasOuterSpaces cs then (cs.drop 1).dropLast else cs := by
  have hmap : cs.map (fun c => if isLineEnd c = true then ' ' else c) = cs := by
    refine (List.map_congr_left fun c hc => ?_).trans (List.map_id cs)
    rw [h c hc]
    rfl
  simp [codeText, hmap, HasOuterSpaces, and_assoc]

/-- What is read of a span that is written is its text, unless this has spaces to lose. -/
theorem codeText_padded_iff {cs : List Char} (h : ∀ c ∈ cs, isLineEnd c = false) :
    codeText false (padded cs) = cs ↔ ¬ HasOuterSpaces cs := by
  -- A backtick at an end is set off by spaces, and then these are what is stripped.
  by_cases hticks : cs.head? = some '\x60' ∨ cs.getLast? = some '\x60'
  · have hends : ∀ c ∈ padded cs, isLineEnd c = false := by
      rw [padded, if_pos hticks]
      intro c hc
      rw [List.mem_cons, List.mem_append, List.mem_singleton] at hc
      rcases hc with rfl | hc | rfl
      exacts [rfl, h c hc, rfl]
    have hspaces : HasOuterSpaces (padded cs) := by
      have hmem : '\x60' ∈ cs := hticks.elim List.mem_of_mem_head? List.mem_of_getLast?
      rw [padded, if_pos hticks]
      refine ⟨rfl, ?_, '\x60', by simp [hmem], by decide⟩
      rw [← List.cons_append, List.getLast?_concat]
    have hnone : ¬ HasOuterSpaces cs := by
      rintro ⟨hhead, hlast, -⟩
      rw [hhead, hlast] at hticks
      revert hticks
      decide
    rw [codeText_eq hends, if_pos hspaces, padded, if_pos hticks]
    simpa using hnone
  · rw [padded, if_neg hticks, codeText_eq h]
    split_ifs with hspaces
    · refine iff_of_false (fun heq => ?_) (not_not_intro hspaces)
      have hlength := congrArg List.length heq
      have hne : cs ≠ [] := by
        rintro rfl
        cases hspaces.1
      have hpos := List.length_pos_of_ne_nil hne
      simp only [List.length_dropLast, List.length_drop] at hlength
      omega
    · exact iff_of_true rfl hspaces

/-- **A span that is written** is read whole and as its text, exactly if the text is not empty and has no
spaces to lose. -/
theorem readCodeSpan?_render_code (text : String) (h : ∀ c ∈ text.toList, isLineEnd c = false) :
    readCodeSpan? (Inline.code .empty text).render.toList = some (text.toList, []) ↔
      text ≠ "" ∧ ¬ HasOuterSpaces text.toList := by
  rw [Inline.render]
  by_cases hne : text = ""
  · rw [hne, readCodeSpan?_empty]
    simp
  · rw [readCodeSpan?_padded hne, Option.some_inj, Prod.mk_inj, codeText_padded_iff h]
    exact ⟨fun hspaces => ⟨hne, hspaces.1⟩, fun hspaces => ⟨hspaces.2, rfl⟩⟩

/-- Runs of one and of two backticks, spaces between them and a backtick at the end; and a text that loses
its spaces. -/
theorem readCodeSpan?_render_code_runs :
    readCodeSpan? (Inline.code .empty " \x60\x60 a\x60").render.toList =
        some (" \x60\x60 a\x60".toList, []) ∧
      readCodeSpan? (Inline.code .empty " a ").render.toList ≠ some (" a ".toList, []) :=
  ⟨(readCodeSpan?_render_code _ (by simp [isLineEnd])).2 (by simp [HasOuterSpaces]),
    fun hread => ((readCodeSpan?_render_code _ (by simp [isLineEnd])).1 hread).2
      ⟨by simp, by simp, 'a', by simp, by decide⟩⟩

end Literate.Markdown
