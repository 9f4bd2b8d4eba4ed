import Literate.Document.Source
import Literate.Proofs.Markdown.FirstPart
import Literate.Proofs.Text.LineWords

/-!
# Front matter

A source that opens with a line of three plus signs has front matter up to the next such line, which may have
spaces behind the signs, but no other blanks. The reader takes it at the first line of the source, before
anything is open, and what it has read by then stays in front of all that comes (`Builder.lasting_suffix`).

Main result: `frontMatter?_eventsOf`, what is found as the front matter of a source that is written with it.
-/

namespace Literate.Markdown

open Text (isPluses)

variable {line : List Char} {lines : List (List Char)}

-- ---------------------------------------------------------------------------
-- The pieces of front matter
-- ---------------------------------------------------------------------------

/-- The text of pieces, one behind the other. -/
def textOfPieces (pieces : List MetadataPiece) : List Char :=
  pieces.flatMap (·.text)

theorem textOfPieces_append (pieces more : List MetadataPiece) :
    textOfPieces (pieces ++ more) = textOfPieces pieces ++ textOfPieces more :=
  List.flatMap_append

/-- However a line is cut into pieces, they have the text that the line has anywhere else. -/
theorem textOfPieces_metadataPieces (pending : Nat) (line below : List Char) :
    textOfPieces (metadataPieces pending line below) = literalLine pending line := by
  simp only [metadataPieces, literalLine]
  split <;> simp [textOfPieces]

/-- The first piece begins where front matter does. -/
theorem source_of_readMetadata {fuel : Nat} {cs : List Char} {piece : MetadataPiece}
    (h : piece ∈ (readMetadata [] fuel cs).1.head?) : piece.source = cs := by
  cases fuel with
  | zero => cases h
  | succ fuel =>
    have hline := splitLine_append_self cs
    have henter : enterAll? [] cs = some (.ofLine cs) := rfl
    rw [readMetadata, henter] at h
    dsimp only at h
    split at h
    · cases h
    · unfold metadataPieces at h
      dsimp only at h
      split at h
      all_goals
        cases h
        exact hline

/-- What is gathered of lines: the place of the first, and the text of all. -/
theorem foldl_add_lines (places : List (Nat × String)) (g : Gathered) :
    (places.map fun (start, text) => Event.line start text).foldl Gathered.add g =
      ⟨g.start.or (places.head?.map (·.1)), g.text ++ String.join (places.map (·.2))⟩ := by
  induction places generalizing g with
  | nil => simp
  | cons place places ih =>
    rw [List.map_cons, List.foldl_cons, ih]
    simp [Gathered.add, String.append_assoc]

/-- Front matter in lines begins where the first of them does. -/
theorem frontMatter?_lines (places : List (Nat × String)) (events : List Event) :
    frontMatter? (Tag.metadata.around (places.map fun (start, text) => .line start text) ++ events) =
      some ((places.head?.map (·.1)).getD 0, String.join (places.map (·.2)), events) := by
  have hinside : ((places.map fun (start, text) => Event.line start text) ++
      Event.ends .metadata :: events).takeWhile (fun event => event ≠ Event.ends .metadata) =
        places.map fun (start, text) => Event.line start text := by
    rw [List.takeWhile_append_of_pos fun event hmem => ?_, List.takeWhile_cons_of_neg (by simp), List.append_nil]
    obtain ⟨place, -, rfl⟩ := List.mem_map.mp hmem
    rfl
  have hgathered := foldl_add_lines places .none
  generalize (places.map fun (start, text) => Event.line start text) = inside at *
  have hdrop : (inside ++ Event.ends .metadata :: events).drop (inside.length + 1) = events := by simp
  have hevents : Tag.metadata.around inside ++ events =
      .start .metadata :: (inside ++ .ends .metadata :: events) := by simp [Tag.around, Tag.ending]
  rw [hevents, frontMatter?]
  simp only [hinside, hgathered, hdrop]
  simp [Gathered.none]

theorem join_placed (size : Nat) (pieces : List MetadataPiece) :
    String.join ((pieces.map (MetadataPiece.placed size)).map (·.2)) = String.ofList (textOfPieces pieces) := by
  induction pieces with
  | nil => rfl
  | cons piece pieces ih =>
    rw [List.map_cons, List.map_cons, String.join_cons, ih]
    exact (String.ofList_append ..).symm

/-- Front matter is found where the first part is that. -/
theorem frontMatter?_cons {source : String} {places : List (Nat × String)} {parts : List Part}
    (hparts : (partsOf true source.toList).1 = .metadata places :: parts) :
    frontMatter? (eventsOf true source) = some ((places.head?.map (·.1)).getD 0, String.join (places.map (·.2)),
      eventsOfParts (partsOf true source.toList).2 false parts) := by
  rw [eventsOf]
  simp only [hparts]
  rw [eventsOfParts, Part.events, frontMatter?_lines]

/-- Front matter whose pieces begin behind `front` is said to begin there, if there are any. -/
theorem frontMatter?_placed {source : String} {front body : List Char} {pieces : List MetadataPiece}
    {parts : List Part} (hsource : source.toList = front ++ body)
    (hhead : ∀ piece ∈ pieces.head?, piece.source = body)
    (hparts : (partsOf true source.toList).1 =
      .metadata (pieces.map (MetadataPiece.placed (String.ofList source.toList).utf8ByteSize)) :: parts) :
    ∃ events, frontMatter? (eventsOf true source) =
      some (if pieces.isEmpty then 0 else (String.ofList front).utf8ByteSize,
        String.ofList (textOfPieces pieces), events) := by
  refine ⟨eventsOfParts (partsOf true source.toList).2 false parts, ?_⟩
  rw [frontMatter?_cons hparts, join_placed]
  cases pieces with
  | nil => rfl
  | cons piece pieces =>
    obtain rfl := hhead piece rfl
    rw [hsource, String.ofList_append, String.utf8ByteSize_append]
    simp [MetadataPiece.placed]

-- ---------------------------------------------------------------------------
-- The line that ends front matter
-- ---------------------------------------------------------------------------

theorem replicate_runLength_append (c : Char) (cs : List Char) :
    List.replicate (runLength c cs) c ++ cs.drop (runLength c cs) = cs := by
  induction cs with
  | nil => rfl
  | cons d cs ih =>
    by_cases hd : d = c
    · rw [runLength_cons_of_eq hd, List.replicate_succ, List.drop_succ_cons, List.cons_append, ih, hd]
    · rw [runLength_cons_of_ne hd, List.replicate_zero, List.drop_zero, List.nil_append]

theorem isSome_afterPluses? (h : IsLiteral line) (rest : List Char) :
    (afterPluses? (line ++ '\n' :: rest)).isSome = isPluses (· = ' ') line := by
  rw [afterPluses?, runLength_append_feed (by decide)]
  -- Three signs in front are a matter of the whole run: a fourth would make it longer.
  by_cases hpluses : ∃ tail, line = '+' :: '+' :: '+' :: tail
  · obtain ⟨tail, rfl⟩ := hpluses
    have hrun : runLength '+' ('+' :: '+' :: '+' :: tail) = runLength '+' tail + 3 := by
      rw [runLength_cons_of_eq rfl, runLength_cons_of_eq rfl, runLength_cons_of_eq rfl]
    rw [hrun, isPluses]
    split
    · have hspaces : (tail.drop (runLength ' ' tail)).isEmpty = tail.all (· = ' ') := by
        rw [Bool.eq_iff_iff, List.isEmpty_iff, drop_runLength_eq_nil_iff]
      have hend : tail.drop (runLength ' ' tail) <:+ '+' :: '+' :: '+' :: tail :=
        (List.drop_suffix _ tail).trans ⟨['+', '+', '+'], rfl⟩
      have hliteral : IsLiteral (tail.drop (runLength ' ' tail)) :=
        ⟨fun hmem => h.1 (hend.mem hmem), fun hmem => h.2 (hend.mem hmem)⟩
      rw [List.cons_append, List.cons_append, List.cons_append, List.drop_succ_cons, List.drop_succ_cons,
        List.drop_succ_cons, List.drop_zero, dropWhile_append_feed (by decide)]
      dsimp only
      rw [atLineEnd_append_feed hliteral, hspaces]
      cases tail.all (· = ' ') <;> rfl
    · rename_i hmore
      cases tail with
      | nil => exact absurd rfl hmore
      | cons c tail =>
        have hc : c = '+' := by
          by_contra hne
          exact hmore (by rw [runLength_cons_of_ne hne])
        simp [hc]
  · have hrun : runLength '+' line ≠ 3 := by
      intro hthree
      have hline := replicate_runLength_append '+' line
      rw [hthree] at hline
      exact hpluses ⟨_, hline.symm⟩
    have hnot : isPluses (· = ' ') line = false := by
      rw [Bool.eq_false_iff, ne_eq, Text.isPluses_iff]
      exact fun ⟨tail, heq, _⟩ => hpluses ⟨tail, heq⟩
    rw [if_neg hrun, hnot]
    rfl

/-- Three plus signs end front matter. -/
theorem afterPluses?_pluses (rest : List Char) :
    afterPluses? ('+' :: '+' :: '+' :: '\n' :: rest) = some ('\n' :: rest) := by
  have hrun : runLength '+' ('+' :: '+' :: '+' :: '\n' :: rest) = 3 :=
    runLength_replicate_append 3 (show ('\n' :: rest).head? ≠ some '+' by simp)
  rw [afterPluses?, hrun, if_pos rfl]
  rfl

/-- The lines of front matter are read up to the first that ends it. -/
theorem readMetadata_lines (hlines : ∀ line ∈ lines, IsLiteral line) {fuel : Nat}
    (hfuel : lines.length < fuel) (rest : List Char) :
    textOfPieces (readMetadata [] fuel (feeds lines ++ '+' :: '+' :: '+' :: '\n' :: rest)).1 =
      feeds (lines.takeWhile fun line => !isPluses (· = ' ') line) := by
  induction lines generalizing fuel with
  | nil =>
    obtain ⟨fuel, rfl⟩ := Nat.exists_eq_succ_of_ne_zero (Nat.ne_of_gt hfuel)
    show textOfPieces (readMetadata [] (fuel + 1) ('+' :: '+' :: '+' :: '\n' :: rest)).1 = []
    rw [readMetadata]
    simp [enterAll?, enter, afterPluses?_pluses, textOfPieces]
  | cons line lines ih =>
    obtain ⟨hline, hrest⟩ := List.forall_mem_cons.mp hlines
    obtain ⟨fuel, rfl⟩ := Nat.exists_eq_succ_of_ne_zero (Nat.ne_of_gt (Nat.zero_lt_of_lt hfuel))
    have hends := isSome_afterPluses? hline (feeds lines ++ '+' :: '+' :: '+' :: '\n' :: rest)
    rw [feeds_cons, List.append_assoc, List.cons_append, readMetadata]
    simp only [enterAll?, enter]
    cases hpluses : isPluses (· = ' ') line with
    | true =>
      obtain ⟨behind, hbehind⟩ := Option.isSome_iff_exists.mp (hends.trans hpluses)
      rw [List.takeWhile_cons_of_neg (by simp [hpluses])]
      simp only [hbehind]
      rfl
    | false =>
      have hnone := Option.not_isSome_iff_eq_none.mp (Bool.eq_false_iff.mp (hends.trans hpluses))
      have hbelow := ih hrest (Nat.lt_of_succ_lt_succ hfuel)
      rw [List.takeWhile_cons_of_pos (by simp [hpluses]), feeds_cons, ← hbelow]
      simp [hnone, Cursor.ofLine, splitLine_append hline.1, textOfPieces_append, textOfPieces_metadataPieces,
        literalLine_eq hline]

/-- What is below the line that ends front matter is left, if no line above ends it. -/
theorem readMetadata_rest (hlines : ∀ line ∈ lines, IsLiteral line ∧ isPluses (· = ' ') line = false) {fuel : Nat}
    (hfuel : lines.length < fuel) (rest : List Char) :
    (readMetadata [] fuel (feeds lines ++ '+' :: '+' :: '+' :: '\n' :: rest)).2 = rest := by
  induction lines generalizing fuel with
  | nil =>
    obtain ⟨fuel, rfl⟩ := Nat.exists_eq_succ_of_ne_zero (Nat.ne_of_gt hfuel)
    show (readMetadata [] (fuel + 1) ('+' :: '+' :: '+' :: '\n' :: rest)).2 = rest
    rw [readMetadata]
    simp [enterAll?, enter, afterPluses?_pluses, dropBlankLine, afterBlankLine?, isGap, afterLineEnd?]
  | cons line lines ih =>
    obtain ⟨⟨hline, hpluses⟩, hrest⟩ := List.forall_mem_cons.mp hlines
    obtain ⟨fuel, rfl⟩ := Nat.exists_eq_succ_of_ne_zero (Nat.ne_of_gt (Nat.zero_lt_of_lt hfuel))
    have hends := isSome_afterPluses? hline (feeds lines ++ '+' :: '+' :: '+' :: '\n' :: rest)
    have hnone := Option.not_isSome_iff_eq_none.mp (Bool.eq_false_iff.mp (hends.trans hpluses))
    have hbelow := ih hrest (Nat.lt_of_succ_lt_succ hfuel)
    rw [feeds_cons, List.append_assoc, List.cons_append, readMetadata]
    simp only [enterAll?, enter]
    simpa [hnone, Cursor.ofLine, splitLine_append hline.1] using hbelow

/-- There is an end of front matter below any of its lines. -/
theorem closesBelow_lines (hline : '\n' ∉ line) (hlines : ∀ line ∈ lines, '\n' ∉ line) {fuel : Nat}
    (hfuel : lines.length < fuel) (rest : List Char) :
    closesBelow fuel (line ++ '\n' :: (feeds lines ++ '+' :: '+' :: '+' :: '\n' :: rest)) = true := by
  induction lines generalizing line fuel with
  | nil =>
    obtain ⟨fuel, rfl⟩ := Nat.exists_eq_succ_of_ne_zero (Nat.ne_of_gt hfuel)
    simp [closesBelow, splitLine_append hline, feeds, afterPluses?_pluses]
  | cons next lines ih =>
    obtain ⟨hnext, hrest⟩ := List.forall_mem_cons.mp hlines
    obtain ⟨fuel, rfl⟩ := Nat.exists_eq_succ_of_ne_zero (Nat.ne_of_gt (Nat.zero_lt_of_lt hfuel))
    have hbelow := ih hnext hrest (Nat.lt_of_succ_lt_succ hfuel)
    rw [closesBelow, splitLine_append hline, feeds_cons, List.append_assoc, List.cons_append]
    simp [hbelow]

/-- A line of plus signs opens front matter that begins with neither a blank nor a plus sign. -/
theorem opensMetadata_lines (hlines : ∀ line ∈ lines, '\n' ∉ line) (hline : '\n' ∉ line)
    (hbegins : BeginsText line) (hplus : line.head? ≠ some '+') (rest : List Char) :
    opensMetadata ('+' :: '+' :: '+' :: '\n' ::
      (feeds (line :: lines) ++ '+' :: '+' :: '+' :: '\n' :: rest)) = true := by
  have hfuel : lines.length < (feeds (line :: lines) ++ '+' :: '+' :: '+' :: '\n' :: rest).length := by
    have hlength := length_le_feeds (line :: lines)
    simp only [List.length_append, List.length_cons] at hlength ⊢
    omega
  have hcloses := closesBelow_lines hline hlines hfuel rest
  rw [feeds_cons, List.append_assoc, List.cons_append] at hcloses ⊢
  generalize hbelow : line ++ '\n' :: (feeds lines ++ '+' :: '+' :: '+' :: '\n' :: rest) = below at hcloses ⊢
  have hblank : isBlankLine below = false := by
    have hbegins := hbegins.append ('\n' :: (feeds lines ++ '+' :: '+' :: '+' :: '\n' :: rest))
    rw [hbelow] at hbegins
    rw [isBlankLine, hbegins.afterBlankLine?]
    rfl
  have hopen : (afterPluses? below).isNone = true := by
    obtain ⟨c, cs, rfl, -, -⟩ := hbegins
    have hc : c ≠ '+' := by simpa using hplus
    rw [← hbelow, List.cons_append, afterPluses?, runLength_cons_of_ne hc]
    rfl
  have hsplit : splitLine ('+' :: '+' :: '+' :: '\n' :: below) = (['+', '+', '+', '\n'], below) := rfl
  have hrun : runLength '+' ('+' :: '+' :: '+' :: '\n' :: below) = 3 := by
    rw [runLength_cons_of_eq rfl, runLength_cons_of_eq rfl, runLength_cons_of_eq rfl,
      runLength_cons_of_ne (by decide)]
  rw [opensMetadata, hsplit]
  simp [hrun, hblank, hopen, hcloses, Text.isAsciiBlank]

-- ---------------------------------------------------------------------------
-- The line that opens front matter
-- ---------------------------------------------------------------------------

namespace Builder

/-- A line of plus signs opens no list, though each of them could be a bullet. -/
theorem openContainers_pluses (fuel : Nat) (body : List Char) (b : Builder) :
    openContainers (fuel + 1) (.ofLine ('+' :: '+' :: '+' :: '\n' :: body)) b =
      (b, .inr (.ofLine ('+' :: '+' :: '+' :: '\n' :: body))) := by
  have hskip := skip_of_not_isGap (c := '+') rfl ('+' :: '+' :: '\n' :: body) [] 0 (n := 4) (by omega)
  have hmarker : Cursor.overMarker? 0 ⟨'+' :: '+' :: '+' :: '\n' :: body, [], 0, 0⟩ = none := by
    simp [Cursor.overMarker?, Marker.read?, Marker.isBullet, afterRule?, Cursor.step, Cursor.skip,
      Cursor.skipBlanks, atLineEnd, afterLineEnd?]
  rw [openContainers, Cursor.ofLine, hskip]
  simp [hmarker, Cursor.overQuote?]

/-- Front matter is read at the first line of a source. -/
theorem readBlock_pluses (size : Nat) {body : List Char}
    (h : opensMetadata ('+' :: '+' :: '+' :: '\n' :: body) = true) :
    empty.readBlock (some size) ('+' :: '+' :: '+' :: '\n' :: body) =
      (empty.add (.metadata ((readMetadata [] (body.length + 1) body).1.map (MetadataPiece.placed size))),
        (readMetadata [] (body.length + 1) body).2) := by
  have hskip := skip_of_not_isGap (c := '+') rfl ('+' :: '+' :: '\n' :: body) [] 0 (n := 4) (by omega)
  have hblank : afterBlankLine? ('+' :: '+' :: '+' :: '\n' :: body) = none := by
    simp [afterBlankLine?, isGap, afterLineEnd?]
  have henter : enter (.ofLine ('+' :: '+' :: '+' :: '\n' :: body)) empty.containers =
      (.ofLine ('+' :: '+' :: '+' :: '\n' :: body), 0) := rfl
  have hclose : closeMany (empty.stack.length - 0) empty = empty := rfl
  rw [readBlock_eq, henter, hclose, readFrom, openContainers_pluses]
  simp only [Cursor.ofLine, hblank, hskip, h]
  simp [splitLine, add, empty, finishList, finishBareItem, containers]

end Builder

/-- What is read at the first line of a source is the first of its parts. -/
theorem exists_partsOf {c : Char} {cs : List Char} {part : Part}
    (h : (Builder.empty.readBlock (some (String.ofList (c :: cs)).utf8ByteSize) (c :: cs)).1.parts = [part]) :
    ∃ parts, (partsOf true (c :: cs)).1 = part :: parts := by
  generalize hsize : some (String.ofList (c :: cs)).utf8ByteSize = size at h
  generalize hnext : Builder.empty.readBlock size (c :: cs) = next at h
  have hread : Builder.empty.readBlocks size ((c :: cs).length + 1) (c :: cs) =
      next.1.readBlocks size (c :: cs).length next.2 := by
    rw [Builder.readBlocks, hnext]
    exact List.cons_ne_nil c cs
  have hlasting := Builder.lasting_suffix [part]
  have hnow : [part] <:+ next.1.parts := h ▸ List.suffix_rfl
  have hkept := hlasting.readBlocks hnow size (c :: cs).length next.2
  rw [← hread] at hkept
  obtain ⟨front, hfront⟩ := hlasting.closeMany hkept
    (Builder.empty.readBlocks size ((c :: cs).length + 1) (c :: cs)).stack.length
  refine ⟨front.reverse, ?_⟩
  rw [partsOf, if_pos rfl, hsize]
  dsimp only
  rw [← hfront, List.reverse_append]
  rfl

/-- **Front matter.** Of the lines between two lines of plus signs, the front matter that is found has those
above the first that has only spaces behind three plus signs. -/
theorem frontMatter?_eventsOf {source : String} {rest : List Char}
    (hsource : source.toList = '+' :: '+' :: '+' :: '\n' ::
      (feeds (line :: lines) ++ '+' :: '+' :: '+' :: '\n' :: rest))
    (hline : IsLiteral line) (hlines : ∀ line ∈ lines, IsLiteral line) (hbegins : BeginsText line)
    (hplus : line.head? ≠ some '+') :
    ∃ events, frontMatter? (eventsOf true source) =
      some (4, String.ofList (feeds ((line :: lines).takeWhile fun line => !isPluses (· = ' ') line)),
        events) := by
  have hopens := opensMetadata_lines (fun line hmem => (hlines line hmem).1) hline.1 hbegins hplus rest
  have hfuel : (line :: lines).length <
      (feeds (line :: lines) ++ '+' :: '+' :: '+' :: '\n' :: rest).length + 1 := by
    have hlength := length_le_feeds (line :: lines)
    rw [List.length_append]
    omega
  have htext := readMetadata_lines (List.forall_mem_cons.mpr ⟨hline, hlines⟩) hfuel rest
  have hfirst : isPluses (· = ' ') line = false := by
    rw [Bool.eq_false_iff, ne_eq, Text.isPluses_iff]
    rintro ⟨tail, rfl, -⟩
    exact hplus rfl
  obtain ⟨parts, hparts⟩ := exists_partsOf (congrArg (·.1.parts) (Builder.readBlock_pluses _ hopens))
  rw [← hsource] at hparts
  generalize feeds (line :: lines) ++ '+' :: '+' :: '+' :: '\n' :: rest = body at *
  have hfront : source.toList = ['+', '+', '+', '\n'] ++ body := hsource
  obtain ⟨events, hfound⟩ := frontMatter?_placed hfront (fun _ => source_of_readMetadata) hparts
  have hsome : (readMetadata [] (body.length + 1) body).1.isEmpty = false := by
    cases hpieces : (readMetadata [] (body.length + 1) body).1 with
    | nil => simp [hpieces, textOfPieces, hfirst, feeds_cons] at htext
    | cons => rfl
  rw [htext, hsome] at hfound
  exact ⟨events, hfound⟩

end Literate.Markdown
