import Literate.Text.Blank
import Literate.Text.Lines
import Mathlib

/-!
# Texts of whole lines

Cutting a text at its line feeds undoes joining its pieces. A text whose last line has its line feed too is
one of whole lines (`IsWhole`). What is put behind such a text starts a line of its own, while what is put
behind any other text goes on with its last line. So of a text the part up to its last line feed
(`wholePart`) is made of its own lines whatever comes behind it, and the rest is not.

Main results:

* `splitFeeds_append_feed`: a line feed separates the pieces before it from those behind it.
* `notMem_of_mem_lines`: no line of a text has a line feed in it.
* `IsWhole.splitFeeds_append`: behind whole lines the pieces are those of what comes there.
* `joinLines_dropLast`: without its last piece a text is its whole lines, the last line feed left out.
-/

namespace Literate.Text

variable {cs ds piece : List Char}

-- ---------------------------------------------------------------------------
-- Pieces
-- ---------------------------------------------------------------------------

theorem splitAt_eq_splitOn (sep : Char) (cs : List Char) : splitAt sep cs = cs.splitOn sep := by
  induction cs with
  | nil => rfl
  | cons c cs ih =>
    rw [splitAt, ih, List.splitOn_cons_eq_if_modifyHead]
    by_cases hc : c = sep
    · rw [if_pos hc, if_pos (beq_iff_eq.mpr hc)]
    · rw [if_neg hc, if_neg (fun h => hc (beq_iff_eq.mp h))]
      rcases hpieces : cs.splitOn sep with _ | ⟨piece, pieces⟩
      · exact absurd hpieces (List.splitOn_ne_nil sep cs)
      · rfl

theorem splitFeeds_ne_nil (cs : List Char) : splitFeeds cs ≠ [] := by
  rw [splitFeeds, splitAt_eq_splitOn]
  exact List.splitOn_ne_nil _ _

theorem splitFeeds_of_notMem (h : '\n' ∉ cs) : splitFeeds cs = [cs] := by
  rw [splitFeeds, splitAt_eq_splitOn]
  exact List.splitOn_eq_singleton h

theorem splitFeeds_append_feed (cs ds : List Char) :
    splitFeeds (cs ++ '\n' :: ds) = splitFeeds cs ++ splitFeeds ds := by
  rw [splitFeeds, splitFeeds, splitFeeds]
  simp only [splitAt_eq_splitOn]
  exact List.splitOn_append_cons_self cs ds

theorem intercalate_splitFeeds (cs : List Char) : ['\n'].intercalate (splitFeeds cs) = cs := by
  rw [splitFeeds, splitAt_eq_splitOn]
  exact List.intercalate_splitOn '\n'

theorem splitFeeds_intercalate {pieces : List (List Char)} (hne : pieces ≠ [])
    (h : ∀ piece ∈ pieces, '\n' ∉ piece) : splitFeeds (['\n'].intercalate pieces) = pieces := by
  rw [splitFeeds, splitAt_eq_splitOn]
  exact List.splitOn_intercalate '\n' h hne

theorem intercalate_append {first second : List (List Char)} (hfirst : first ≠ []) (hsecond : second ≠ [])
    (sep : List Char) :
    sep.intercalate (first ++ second) = sep.intercalate first ++ sep ++ sep.intercalate second := by
  induction first with
  | nil => exact absurd rfl hfirst
  | cons piece first ih =>
    rcases first with _ | ⟨next, first⟩
    · rw [List.singleton_append, List.intercalate_cons_of_ne_nil hsecond, List.intercalate_singleton]
    · have hrest := ih (List.cons_ne_nil next first)
      rw [List.cons_append, List.cons_append, List.intercalate_cons_cons, ← List.cons_append, hrest,
        List.intercalate_cons_cons]
      simp

theorem infix_intercalate (sep : List Char) {pieces : List (List Char)} (h : piece ∈ pieces) :
    piece <:+: sep.intercalate pieces := by
  induction pieces with
  | nil => cases h
  | cons first pieces ih =>
    rcases pieces with _ | ⟨second, pieces⟩
    · rw [List.mem_singleton.mp h, List.intercalate_singleton]
    · rw [List.intercalate_cons_cons]
      rcases List.mem_cons.mp h with rfl | h
      · rw [List.append_assoc]
        exact (List.prefix_append ..).isInfix
      · exact (ih h).trans (List.suffix_append ..).isInfix

/-- What is not in the separator is from one of the pieces. -/
theorem mem_intercalate_iff {c : Char} {sep : List Char} (h : c ∉ sep) {pieces : List (List Char)} :
    c ∈ sep.intercalate pieces ↔ ∃ piece ∈ pieces, c ∈ piece := by
  refine ⟨fun hmem => ?_, fun ⟨piece, hpiece, hmem⟩ => (infix_intercalate sep hpiece).mem hmem⟩
  induction pieces with
  | nil => exact absurd hmem (by simp)
  | cons first pieces ih =>
    rcases pieces with _ | ⟨second, pieces⟩
    · exact ⟨first, List.mem_singleton_self first, by simpa using hmem⟩
    · rw [List.intercalate_cons_cons, List.mem_append, List.mem_append, or_assoc] at hmem
      rcases hmem with hmem | hmem | hmem
      · exact ⟨first, List.mem_cons_self, hmem⟩
      · exact absurd hmem h
      · obtain ⟨piece, hpiece, hmem⟩ := ih hmem
        exact ⟨piece, List.mem_cons_of_mem first hpiece, hmem⟩

/-- Every piece stands somewhere in the text. -/
theorem infix_of_mem_splitFeeds (h : piece ∈ splitFeeds cs) : piece <:+: cs := by
  have hwithin := infix_intercalate ['\n'] h
  rwa [intercalate_splitFeeds] at hwithin

theorem notMem_of_mem_splitFeeds (h : piece ∈ splitFeeds cs) : '\n' ∉ piece := by
  induction cs generalizing piece with
  | nil =>
    rw [List.mem_singleton.mp h]
    simp
  | cons c cs ih =>
    obtain ⟨first, pieces, hpieces⟩ := List.exists_cons_of_ne_nil (splitFeeds_ne_nil cs)
    rw [hpieces] at ih
    obtain ⟨hfirst, hrest⟩ := List.forall_mem_cons.mp fun piece => @ih piece
    by_cases hc : c = '\n'
    · have hcut : splitFeeds (c :: cs) = [] :: splitFeeds cs := by
        rw [splitFeeds, splitAt, if_pos hc, splitFeeds]
      rw [hcut, hpieces] at h
      rcases List.mem_cons.mp h with rfl | h
      · exact List.not_mem_nil
      · exact ih h
    · have hcut : splitFeeds (c :: cs) = (c :: first) :: pieces := by
        rw [splitFeeds] at hpieces
        rw [splitFeeds, splitAt, if_neg hc, hpieces]
      rw [hcut] at h
      rcases List.mem_cons.mp h with rfl | h
      · exact fun hmem => (List.mem_cons.mp hmem).elim (fun heq => hc heq.symm) hfirst
      · exact hrest _ h

theorem linesOfPieces_append_nil (pieces : List (List Char)) :
    linesOfPieces (pieces ++ [[]]) = pieces.map dropReturn := by
  induction pieces with
  | nil => rfl
  | cons piece pieces ih =>
    rw [List.cons_append, linesOfPieces, ih, List.map_cons]
    exact fun hnil => absurd hnil (by simp)

-- ---------------------------------------------------------------------------
-- Carriage returns
-- ---------------------------------------------------------------------------

theorem dropReturn_prefix (cs : List Char) : dropReturn cs <+: cs := by
  rw [dropReturn]
  split
  · exact List.dropLast_prefix cs
  · exact List.prefix_rfl

theorem dropReturn_of_getLast? (h : cs.getLast? ≠ some '\r') : dropReturn cs = cs :=
  if_neg h

/-- The carriage return that is dropped is none of a text in front that ends otherwise. -/
theorem prefix_dropReturn_append (h : cs.getLast? ≠ some '\r') : cs <+: dropReturn (cs ++ ds) := by
  rcases List.eq_nil_or_concat ds with rfl | ⟨ds, d, rfl⟩
  · rw [List.append_nil, dropReturn, if_neg h]
  · rw [dropReturn]
    split
    · rw [List.concat_eq_append, ← List.append_assoc, List.dropLast_concat]
      exact List.prefix_append ..
    · exact List.prefix_append ..

/-- A line is what a piece begins with. -/
theorem exists_piece_of_mem_linesOfPieces {line : List Char} {pieces : List (List Char)}
    (h : line ∈ linesOfPieces pieces) : ∃ piece ∈ pieces, line <+: piece := by
  fun_induction linesOfPieces pieces with
  | case1 => exact absurd h List.not_mem_nil
  | case2 last => exact absurd h List.not_mem_nil
  | case3 last =>
    rw [List.mem_singleton.mp h]
    exact ⟨last, List.mem_singleton_self _, List.prefix_rfl⟩
  | case4 piece pieces _ ih =>
    rcases List.mem_cons.mp h with rfl | h
    · exact ⟨piece, List.mem_cons_self .., dropReturn_prefix piece⟩
    · obtain ⟨found, hfound, hbegins⟩ := ih h
      exact ⟨found, List.mem_cons_of_mem _ hfound, hbegins⟩

/-- A line is from somewhere in the text, and no line feed is in it. -/
theorem of_mem_charLines {line : List Char} (h : line ∈ charLines cs) : line <:+: cs ∧ '\n' ∉ line := by
  obtain ⟨piece, hpiece, hbegins⟩ := exists_piece_of_mem_linesOfPieces h
  exact ⟨hbegins.isInfix.trans (infix_of_mem_splitFeeds hpiece),
    fun hmem => notMem_of_mem_splitFeeds hpiece (hbegins.subset hmem)⟩

theorem notMem_of_mem_lines {line s : String} (h : line ∈ lines s) : '\n' ∉ line.toList := by
  obtain ⟨cs, hcs, rfl⟩ := List.mem_map.mp h
  rw [String.toList_ofList]
  exact (of_mem_charLines hcs).2

/-- Pieces that end in no carriage return are lines if the last of them is not empty. -/
theorem linesOfPieces_eq {pieces : List (List Char)} (h : ∀ piece ∈ pieces, piece.getLast? ≠ some '\r')
    (hlast : ∀ piece ∈ pieces.getLast?, piece ≠ []) : linesOfPieces pieces = pieces := by
  induction pieces with
  | nil => rfl
  | cons piece pieces ih =>
    obtain ⟨hpiece, hpieces⟩ := List.forall_mem_cons.mp h
    rcases pieces with _ | ⟨next, pieces⟩
    · have hne := hlast piece rfl
      simp [linesOfPieces, hne]
    · have hrest := ih hpieces (by simpa using hlast)
      rw [linesOfPieces, dropReturn_of_getLast? hpiece, hrest]
      simp

/-- Pieces that end in no carriage return are the lines, and an empty last piece behind them. -/
theorem linesOfPieces_append_last {pieces : List (List Char)}
    (h : ∀ piece ∈ pieces, piece.getLast? ≠ some '\r') :
    linesOfPieces pieces ++ (if pieces.getLast? = some [] then [[]] else []) = pieces := by
  rcases List.eq_nil_or_concat pieces with rfl | ⟨front, last, rfl⟩
  · rfl
  · rw [List.concat_eq_append, List.getLast?_concat]
    rw [List.concat_eq_append] at h
    by_cases hlast : last = []
    · have hkept : front.map dropReturn = front :=
        (List.map_congr_left fun piece hpiece =>
          dropReturn_of_getLast? (h piece (List.mem_append_left _ hpiece))).trans (List.map_id front)
      rw [hlast, linesOfPieces_append_nil, hkept, if_pos rfl]
    · have hfilled : ∀ piece ∈ (front ++ [last]).getLast?, piece ≠ [] := by simpa using hlast
      rw [linesOfPieces_eq h hfilled, if_neg (by simpa using hlast), List.append_nil]

/-- A text without carriage returns has its pieces for lines, but for an empty last one. -/
theorem charLines_append_last (h : '\r' ∉ cs) :
    charLines cs ++ (if (splitFeeds cs).getLast? = some [] then [[]] else []) = splitFeeds cs :=
  linesOfPieces_append_last fun _ hpiece hreturn =>
    h ((infix_of_mem_splitFeeds hpiece).subset (List.mem_of_getLast? hreturn))

/-- A line feed ends the lines in front of it, if there are no carriage returns. -/
theorem charLines_append_feed (h : '\r' ∉ cs) (ds : List Char) :
    charLines (cs ++ '\n' :: ds) = splitFeeds cs ++ charLines ds := by
  have hpieces : ∀ piece ∈ splitFeeds cs, dropReturn piece = piece := fun piece hpiece =>
    dropReturn_of_getLast? fun hreturn =>
      h ((infix_of_mem_splitFeeds hpiece).subset (List.mem_of_getLast? hreturn))
  rw [charLines, splitFeeds_append_feed, charLines]
  generalize splitFeeds cs = pieces at hpieces ⊢
  induction pieces with
  | nil => rfl
  | cons piece pieces ih =>
    obtain ⟨hpiece, hrest⟩ := List.forall_mem_cons.mp hpieces
    rw [List.cons_append, linesOfPieces, ih hrest, hpiece, List.cons_append]
    exact fun hnil => splitFeeds_ne_nil ds (List.append_eq_nil_iff.mp hnil).2

-- ---------------------------------------------------------------------------
-- Whole lines
-- ---------------------------------------------------------------------------

/-- Whether a text is made of lines that end in a line feed. -/
def IsWhole (cs : List Char) : Prop :=
  cs = [] ∨ cs.getLast? = some '\n'

instance (cs : List Char) : Decidable (IsWhole cs) :=
  inferInstanceAs (Decidable (_ ∨ _))

theorem isWhole_iff : IsWhole cs ↔ cs = [] ∨ ∃ ds, cs = ds ++ ['\n'] := by
  rw [IsWhole, List.getLast?_eq_some_iff]

/-- What stands behind a line feed is whole lines if all of the text is. -/
theorem IsWhole.of_append_feed (h : IsWhole (cs ++ '\n' :: ds)) : IsWhole ds := by
  rcases ds with _ | ⟨d, ds⟩
  · exact .inl rfl
  · rw [IsWhole, List.getLast?_append_of_ne_nil _ (List.cons_ne_nil _ _), List.getLast?_cons_cons] at h
    exact .inr (h.resolve_left (by simp))

theorem isWhole_flatMap_feed (lines : List (List Char)) : IsWhole (lines.flatMap (· ++ ['\n'])) := by
  rcases List.eq_nil_or_concat lines with rfl | ⟨lines, line, rfl⟩
  · exact .inl rfl
  · refine .inr ?_
    simp

theorem splitFeeds_append_singleton (cs : List Char) :
    splitFeeds (cs ++ ['\n']) = splitFeeds cs ++ [[]] :=
  splitFeeds_append_feed cs []

namespace IsWhole

variable (h : IsWhole cs)

include h

/-- Behind whole lines the pieces are those of what comes there. -/
theorem splitFeeds_append (ds : List Char) :
    splitFeeds (cs ++ ds) = (splitFeeds cs).dropLast ++ splitFeeds ds := by
  obtain rfl | ⟨lines, rfl⟩ := isWhole_iff.mp h
  · rfl
  · rw [splitFeeds_append_singleton, List.dropLast_concat, List.append_assoc, List.singleton_append,
      splitFeeds_append_feed]

/-- The last piece of a text of whole lines is empty. -/
theorem mem_splitFeeds_iff : piece ∈ splitFeeds cs ↔ piece ∈ (splitFeeds cs).dropLast ∨ piece = [] := by
  have hpieces := h.splitFeeds_append []
  rw [List.append_nil] at hpieces
  rw [hpieces, List.mem_append]
  have hnil : splitFeeds [] = [[]] := rfl
  rw [hnil, List.dropLast_concat, List.mem_singleton]

/-- The lines of a text of whole lines are its pieces but the last, which is empty. -/
theorem charLines_eq : charLines cs = (splitFeeds cs).dropLast.map dropReturn := by
  obtain rfl | ⟨lines, rfl⟩ := isWhole_iff.mp h
  · rfl
  · rw [charLines, splitFeeds_append_singleton, List.dropLast_concat]
    exact linesOfPieces_append_nil (splitFeeds lines)

end IsWhole

-- ---------------------------------------------------------------------------
-- The whole lines of a text
-- ---------------------------------------------------------------------------

/-- A text up to its last line feed. -/
def wholePart (cs : List Char) : List Char :=
  dropEndWhile (· ≠ '\n') cs

/-- A text without one line feed at its end. -/
def dropFeed (cs : List Char) : List Char :=
  if cs.getLast? = some '\n' then cs.dropLast else cs

/-- Behind its whole lines a text has a last line without a line feed, which may be empty. -/
theorem exists_wholePart_append (cs : List Char) :
    ∃ rest, cs = wholePart cs ++ rest ∧ IsWhole (wholePart cs) ∧ '\n' ∉ rest := by
  have hsplit : cs = wholePart cs ++ (cs.reverse.takeWhile (· ≠ '\n')).reverse := by
    rw [wholePart, dropEndWhile, ← List.reverse_append, List.takeWhile_append_dropWhile,
      List.reverse_reverse]
  refine ⟨_, hsplit, ?_, fun hmem => ?_⟩
  · rw [IsWhole, wholePart, dropEndWhile, List.reverse_eq_nil_iff, List.getLast?_reverse]
    rcases hrest : cs.reverse.dropWhile (· ≠ '\n') with _ | ⟨c, rest⟩
    · exact .inl rfl
    · have hc := List.head?_dropWhile_not (· ≠ '\n') cs.reverse
      rw [hrest] at hc
      exact .inr (congrArg some (by simpa using hc))
  · simpa using List.mem_takeWhile_imp (List.mem_reverse.mp hmem)

theorem IsWhole.wholePart_eq (h : IsWhole cs) : wholePart cs = cs := by
  obtain rfl | ⟨lines, rfl⟩ := isWhole_iff.mp h
  · rfl
  · rw [wholePart, dropEndWhile, List.reverse_append, List.reverse_singleton, List.singleton_append,
      List.dropWhile_cons_of_neg (by simp), List.reverse_cons, List.reverse_reverse]

theorem length_dropFeed_le (cs : List Char) : (dropFeed cs).length ≤ cs.length := by
  rw [dropFeed]
  split
  · rw [List.length_dropLast]
    omega
  · exact Nat.le_refl _

/-- The whole lines are all of a text exactly if it has no other. -/
theorem dropFeed_wholePart_eq_iff : dropFeed (wholePart cs) = dropFeed cs ↔ IsWhole cs := by
  refine ⟨fun heq => ?_, fun h => by rw [h.wholePart_eq]⟩
  by_contra hnot
  obtain ⟨rest, hcs, hwhole, -⟩ := exists_wholePart_append cs
  have hkept : dropFeed cs = cs := if_neg fun hlast => hnot (.inr hlast)
  have hrest : rest ≠ [] := by
    rintro rfl
    rw [List.append_nil] at hcs
    exact hnot (hcs ▸ hwhole)
  have hlength := congrArg List.length hcs
  have hle := length_dropFeed_le (wholePart cs)
  have hpos := List.length_pos_iff.mpr hrest
  rw [heq, hkept] at hle
  rw [List.length_append] at hlength
  omega

/-- What comes behind the last line feed of a text is in its last piece only. -/
theorem dropLast_splitFeeds_append (h : '\n' ∉ ds) :
    (splitFeeds (cs ++ ds)).dropLast = (splitFeeds cs).dropLast := by
  obtain ⟨rest, hcs, hwhole, hrest⟩ := exists_wholePart_append cs
  have hbehind : ∀ es, '\n' ∉ es →
      (splitFeeds (wholePart cs ++ es)).dropLast = (splitFeeds (wholePart cs)).dropLast := by
    intro es hes
    rw [hwhole.splitFeeds_append, splitFeeds_of_notMem hes, List.dropLast_concat]
  have hmore : '\n' ∉ rest ++ ds := fun hmem => (List.mem_append.mp hmem).elim hrest h
  calc (splitFeeds (cs ++ ds)).dropLast
      = (splitFeeds (wholePart cs ++ (rest ++ ds))).dropLast := by rw [← List.append_assoc, ← hcs]
    _ = (splitFeeds (wholePart cs ++ rest)).dropLast := by rw [hbehind _ hmore, hbehind _ hrest]
    _ = (splitFeeds cs).dropLast := by rw [← hcs]

theorem dropLast_splitFeeds (cs : List Char) :
    (splitFeeds cs).dropLast = (splitFeeds (wholePart cs)).dropLast := by
  obtain ⟨rest, hcs, -, hrest⟩ := exists_wholePart_append cs
  have happend := @dropLast_splitFeeds_append (wholePart cs) rest hrest
  rwa [← hcs] at happend

theorem toList_joinLines (pieces : List (List Char)) :
    (joinLines (pieces.map String.ofList)).toList = ['\n'].intercalate pieces := by
  rw [joinLines, String.toList_intercalate, List.map_map]
  simp [Function.comp_def]

/-- Two lines are never joined to the empty text. -/
theorem joinLines_ne_empty (first second : String) (lines : List String) :
    joinLines (first :: second :: lines) ≠ "" := by
  intro hempty
  have hchars := congrArg String.toList hempty
  rw [joinLines, String.toList_intercalate, List.map_cons, List.map_cons,
    List.intercalate_cons_cons] at hchars
  simp at hchars

/-- Without its last piece a text is its whole lines, the last line feed left out. -/
theorem joinLines_dropLast (cs : List Char) :
    joinLines ((splitFeeds cs).dropLast.map String.ofList) = String.ofList (dropFeed (wholePart cs)) := by
  obtain ⟨rest, hcs, hwhole, hrest⟩ := exists_wholePart_append cs
  rw [dropLast_splitFeeds, ← String.toList_inj, toList_joinLines, String.toList_ofList]
  obtain hnil | ⟨lines, hlines⟩ := isWhole_iff.mp hwhole
  · rw [hnil]; rfl
  · rw [hlines, splitFeeds_append_singleton, List.dropLast_concat, intercalate_splitFeeds, dropFeed,
      List.getLast?_concat, if_pos rfl, List.dropLast_concat]

end Literate.Text
