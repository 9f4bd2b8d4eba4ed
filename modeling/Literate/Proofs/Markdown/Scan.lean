import Literate.Proofs.Markdown.Nesting

/-!
# Scanning blocks

The scan of a source takes one line after the other, and what it does with a line it does at a place
inside of it: behind the marks of the containers that go on (`readFrom`). From there on the line can open
more containers, and then a block begins that is no container (`ReachesFrom.leaf`, `ReachesFrom.quote`,
`ReachesFrom.item`). `Reaches` and `ReachesFrom` say where the scan gets to, from the beginning of a line
and from a place inside a line; the fuel is no part of what they say.
-/

namespace Literate.Markdown

theorem BeginsText.afterBlankLine? {cs : List Char} (h : BeginsText cs) : afterBlankLine? cs = none := by
  have hend := h.atLineEnd
  obtain ⟨c, rest, rfl, hgap, -⟩ := h
  rw [Markdown.atLineEnd, Option.isSome_eq_false_iff, Option.isNone_iff_eq_none] at hend
  rw [Markdown.afterBlankLine?, List.dropWhile_cons_of_neg (by simp [hgap]), hend]

theorem BeginsText.skip {cs : List Char} (h : BeginsText cs) (taken : List Char) (column : Nat)
    {n : Nat} (hn : n ≠ 0) :
    (Cursor.mk cs taken column 0).skip n = (⟨cs, taken, column, 0⟩, n) := by
  obtain ⟨c, rest, rfl, hgap, -⟩ := h
  exact skip_of_not_isGap hgap rest taken column hn

/-- The front of a line at which a block begins that is no container and not indented. -/
structure BeginsLeaf (cs : List Char) : Prop where
  begins : BeginsText cs
  not_quote : cs.head? ≠ some '>'
  not_metadata : cs.head? ≠ some '+'
  no_item : ∀ (outer : Nat) (taken : List Char) (column : Nat),
    Cursor.overMarker? outer ⟨cs, taken, column, 0⟩ = none

theorem overMarker?_of_read? {cs : List Char} (h : Marker.read? cs = none) (outer : Nat) (taken : List Char)
    (column : Nat) : Cursor.overMarker? outer ⟨cs, taken, column, 0⟩ = none := by
  rw [Cursor.overMarker?, h]

/-- A rule is no item of a list. -/
theorem overMarker?_rule {cs below : List Char} (h : afterRule? cs = some below)
    (hbullet : ∀ marker rest, Marker.read? cs = some (marker, rest) → marker.isBullet = true) (outer : Nat)
    (taken : List Char) (column : Nat) : Cursor.overMarker? outer ⟨cs, taken, column, 0⟩ = none := by
  rw [Cursor.overMarker?]
  cases hmarker : Marker.read? cs with
  | none => rfl
  | some found =>
    obtain ⟨marker, rest⟩ := found
    simp [hbullet marker rest hmarker, h]

theorem BeginsLeaf.overQuote? {cs : List Char} (h : BeginsLeaf cs) (taken : List Char) (column : Nat) :
    Cursor.overQuote? ⟨cs, taken, column, 0⟩ = none := by
  have hquote := h.not_quote
  obtain ⟨c, rest, rfl, -, -⟩ := h.begins
  rw [List.head?_cons, ne_eq, Option.some.injEq] at hquote
  simp [Cursor.overQuote?, hquote]

theorem BeginsLeaf.opensMetadata {cs : List Char} (h : BeginsLeaf cs) : opensMetadata cs = false := by
  have hplus := h.not_metadata
  obtain ⟨c, rest, rfl, -, -⟩ := h.begins
  rw [List.head?_cons, ne_eq, Option.some.injEq] at hplus
  simp [Markdown.opensMetadata, runLength, hplus]

/-- A text that is read as a marker, whatever follows. -/
structure WritesMarker (text : List Char) (marker : Marker) : Prop where
  begins : BeginsText text
  read : ∀ rest, Marker.read? (text ++ rest) = some (marker, rest)
  width : text.length = marker.width

/-- A marker with a space behind it is gone over if no rule stands there. -/
theorem WritesMarker.overMarker? {text : List Char} {marker : Marker} (h : WritesMarker text marker)
    {rest : List Char} (hrest : BeginsText rest)
    (hrule : marker.isBullet = true → afterRule? (text ++ ' ' :: rest) = none)
    (taken : List Char) (column : Nat) :
    ∃ taken' column', Cursor.overMarker? 0 ⟨text ++ ' ' :: rest, taken, column, 0⟩ =
      some (marker, marker.width + 1, ⟨rest, taken', column', 0⟩) := by
  refine ⟨' ' :: (((text ++ ' ' :: rest).take marker.width).reverse ++ taken),
    column + marker.width + 1, ?_⟩
  have hno_rule : (marker.isBullet && (afterRule? (text ++ ' ' :: rest)).isSome) = false := by
    cases hbullet : marker.isBullet with
    | false => rfl
    | true => simp [hrule hbullet]
  have hdrop : (text ++ ' ' :: rest).drop marker.width = ' ' :: rest := by
    rw [← h.width, List.drop_left]
  have hblank : isBlankLine rest = false := by simp [isBlankLine, hrest.afterBlankLine?]
  have hspace : ∀ taken column, (Cursor.mk (' ' :: rest) taken column 0).skip 1 =
      (⟨rest, ' ' :: taken, column + 1, 0⟩, 0) := by
    intro taken column
    obtain ⟨c, cs, rfl, -, -⟩ := hrest
    simp [Cursor.skip, Cursor.skipBlanks]
  simp only [Cursor.overMarker?, h.read, hno_rule, Cursor.step, hdrop, hspace, hblank,
    hrest.skip _ _ (show 4 ≠ 0 by omega)]
  simp

namespace Builder

-- ---------------------------------------------------------------------------
-- Inside a line
-- ---------------------------------------------------------------------------

/-- Reads the blocks that begin at a cursor, behind the marks of the containers that go on. -/
def readFrom (size : Option Nat) (fuel : Nat) (c : Cursor) (b : Builder) : Builder × List Char :=
  match openContainers fuel c b with
  | (b, .inl below) => (b, below)
  | (b, .inr c) =>
    match afterBlankLine? c.rest with
    | some below => (b.blankLine, below)
    | none =>
      let b := b.finishList
      let (inner, missing) := c.skip 4
      let rest := inner.rest
      if missing = 0 then
        let (text, below, endsBlank) :=
          readIndentedCode b.containers (rest.length + 1) inner.pending rest
        ({ b with afterBlank := endsBlank }.add (.code none (String.ofList text)), below)
      else
        match if missing = 4 && opensMetadata rest then size else none with
        | some size =>
          let body := (splitLine rest).2
          let (pieces, below) := readMetadata b.containers (body.length + 1) body
          (b.add (.metadata (pieces.map (MetadataPiece.placed size))), below)
        | none => b.readUnindented c.pending (4 - missing) rest

theorem readBlock_eq (size : Option Nat) (cs : List Char) (b : Builder) :
    b.readBlock size cs = readFrom size (cs.length + 1) (enter (.ofLine cs) b.containers).1
      (b.closeMany (b.stack.length - (enter (.ofLine cs) b.containers).2)) := rfl

theorem readFrom_leaf {cs : List Char} (h : BeginsLeaf cs) (size : Option Nat) (fuel : Nat)
    (taken : List Char) (column : Nat) (b : Builder) :
    readFrom size (fuel + 1) ⟨cs, taken, column, 0⟩ b = b.finishList.readUnindented 0 0 cs := by
  have hskip := h.begins.skip taken column (n := 4) (by omega)
  have hopen : openContainers (fuel + 1) ⟨cs, taken, column, 0⟩ b =
      (b, .inr ⟨cs, taken, column, 0⟩) := by
    rw [openContainers, hskip]
    simp [h.no_item, h.overQuote?]
  rw [readFrom, hopen]
  simp only [h.begins.afterBlankLine?, hskip, h.opensMetadata]
  simp

/-- A mark opens a quote. -/
theorem readFrom_quote (size : Option Nat) (fuel : Nat) (rest taken : List Char) (column : Nat)
    (b : Builder) :
    readFrom size (fuel + 1) ⟨'>' :: ' ' :: rest, taken, column, 0⟩ b =
      readFrom size fuel ⟨rest, ' ' :: '>' :: taken, column + 2, 0⟩
        (b.finishList.openContainer .quote) := by
  have hskip := skip_of_not_isGap (c := '>') rfl (' ' :: rest) taken column (n := 4) (by omega)
  have hmarker : Cursor.overMarker? 0 ⟨'>' :: ' ' :: rest, taken, column, 0⟩ = none := by
    simp [Cursor.overMarker?, Marker.read?]
  rw [readFrom, openContainers, hskip]
  simp only [hmarker, overQuote?_mark]
  simp [readFrom]

/-- A marker opens an item, and a list if none goes on there. -/
theorem readFrom_item {text : List Char} {marker : Marker} (h : WritesMarker text marker)
    {rest : List Char} (hrest : BeginsText rest)
    (hrule : marker.isBullet = true → afterRule? (text ++ ' ' :: rest) = none) (size : Option Nat)
    (fuel : Nat) (taken : List Char) (column : Nat) (b : Builder) :
    ∃ taken' column', readFrom size (fuel + 1) ⟨text ++ ' ' :: rest, taken, column, 0⟩ b =
      readFrom size fuel ⟨rest, taken', column', 0⟩
        ((b.continueList marker).openContainer (.item (marker.width + 1))) := by
  have hskip := (h.begins.append (' ' :: rest)).skip taken column (n := 4) (by omega)
  obtain ⟨taken', column', hmarker⟩ := h.overMarker? hrest hrule taken column
  refine ⟨taken', column', ?_⟩
  rw [readFrom, openContainers, hskip]
  simp only [Nat.sub_self, hmarker, hrest.afterBlankLine?]
  simp [readFrom]

-- ---------------------------------------------------------------------------
-- Getting on
-- ---------------------------------------------------------------------------

/-- Reading blocks gets from some text and builder to others. -/
def Reaches (size : Option Nat) (cs : List Char) (b : Builder) (tail : List Char) (last : Builder) :
    Prop :=
  ∀ fuel, cs.length < fuel →
    ∃ less, tail.length < less ∧ readBlocks size fuel cs b = readBlocks size less tail last

/-- Reading what stands inside a line, and the lines below, gets from some text and builder to
others. -/
def ReachesFrom (size : Option Nat) (cs : List Char) (b : Builder) (tail : List Char)
    (last : Builder) : Prop :=
  ∀ taken column fuel, cs.length < fuel → ∃ next below,
    readFrom size fuel ⟨cs, taken, column, 0⟩ b = (next, below) ∧ below.length < cs.length ∧
      Reaches size below next tail last

section

variable {size : Option Nat} {cs tail far : List Char} {b last final : Builder}

theorem Reaches.refl (size : Option Nat) (cs : List Char) (b : Builder) : Reaches size cs b cs b :=
  fun fuel hfuel => ⟨fuel, hfuel, rfl⟩

theorem Reaches.trans (h : Reaches size cs b tail last) (hmore : Reaches size tail last far final) :
    Reaches size cs b far final := by
  intro fuel hfuel
  obtain ⟨less, hless, hread⟩ := h fuel hfuel
  obtain ⟨least, hleast, hreadMore⟩ := hmore less hless
  exact ⟨least, hleast, hread.trans hreadMore⟩

theorem ReachesFrom.trans (h : ReachesFrom size cs b tail last)
    (hmore : Reaches size tail last far final) : ReachesFrom size cs b far final := by
  intro taken column fuel hfuel
  obtain ⟨next, below, hread, hshorter, hreaches⟩ := h taken column fuel hfuel
  exact ⟨next, below, hread, hshorter, hreaches.trans hmore⟩

/-- A block that is no container. -/
theorem ReachesFrom.leaf (h : BeginsLeaf cs)
    (hread : b.finishList.readUnindented 0 0 cs = (last, tail)) (hshorter : tail.length < cs.length) :
    ReachesFrom size cs b tail last := by
  intro taken column fuel hfuel
  obtain ⟨fuel, rfl⟩ : ∃ n, fuel = n + 1 := ⟨fuel - 1, by omega⟩
  exact ⟨last, tail, (readFrom_leaf h size fuel taken column b).trans hread, hshorter, .refl size tail last⟩

/-- What stands behind the mark of a quote is read in it. -/
theorem ReachesFrom.quote (h : ReachesFrom size cs (b.finishList.openContainer .quote) tail last) :
    ReachesFrom size ('>' :: ' ' :: cs) b tail last := by
  intro taken column fuel hfuel
  simp only [List.length_cons] at hfuel
  obtain ⟨fuel, rfl⟩ : ∃ n, fuel = n + 1 := ⟨fuel - 1, by omega⟩
  obtain ⟨next, below, hread, hshorter, hreaches⟩ :=
    h (' ' :: '>' :: taken) (column + 2) fuel (by omega)
  refine ⟨next, below, (readFrom_quote size fuel cs taken column b).trans hread, ?_, hreaches⟩
  simp only [List.length_cons]
  omega

/-- What stands behind a marker is read in the item that it opens. -/
theorem ReachesFrom.item {text : List Char} {marker : Marker} (hmarker : WritesMarker text marker)
    (hcs : BeginsText cs) (hrule : marker.isBullet = true → afterRule? (text ++ ' ' :: cs) = none)
    (h : ReachesFrom size cs ((b.continueList marker).openContainer (.item (marker.width + 1))) tail
      last) :
    ReachesFrom size (text ++ ' ' :: cs) b tail last := by
  intro taken column fuel hfuel
  simp only [List.length_append, List.length_cons] at hfuel
  obtain ⟨fuel, rfl⟩ : ∃ n, fuel = n + 1 := ⟨fuel - 1, by omega⟩
  obtain ⟨taken', column', hitem⟩ := readFrom_item hmarker hcs hrule size fuel taken column b
  obtain ⟨next, below, hread, hshorter, hreaches⟩ := h taken' column' fuel (by omega)
  refine ⟨next, below, hitem.trans hread, ?_, hreaches⟩
  simp only [List.length_append, List.length_cons]
  omega

/-- A line that is empty in its containers. -/
theorem ReachesFrom.blank (size : Option Nat) (rest : List Char) (b : Builder) :
    ReachesFrom size ('\n' :: rest) b rest b.blankLine := by
  intro taken column fuel hfuel
  obtain ⟨fuel, rfl⟩ : ∃ n, fuel = n + 1 := ⟨fuel - 1, by omega⟩
  have hskip := AtEnd.skip (.inr ⟨rest, rfl⟩ : AtEnd ('\n' :: rest)) taken column 4
  have hmarker : Cursor.overMarker? 0 ⟨'\n' :: rest, taken, column, 0⟩ = none := by
    simp [Cursor.overMarker?, Marker.read?]
  have hread : readFrom size (fuel + 1) ⟨'\n' :: rest, taken, column, 0⟩ b = (b.blankLine, rest) := by
    rw [readFrom, openContainers, hskip]
    simp [hmarker, Cursor.overQuote?, afterBlankLine?, isGap, afterLineEnd?]
  exact ⟨b.blankLine, rest, hread, by simp, .refl size rest _⟩

/-- A line is read behind the marks of the containers that it goes on in; the others are closed. -/
theorem Reaches.line {containers more : List Container} {line rest : List Char} {n : Nat}
    (hrest : AtEnd rest) (hne : line ++ rest ≠ []) (hcontainers : b.containers = containers ++ more)
    (hmore : ∀ taken column, enter ⟨line ++ rest, taken, column, 0⟩ more = (⟨line ++ rest, taken, column, 0⟩, n))
    (h : ReachesFrom size (line ++ rest) (b.closeMany (more.length - n)) tail last) :
    Reaches size (nestedLine containers line ++ rest) b tail last := by
  intro fuel hfuel
  obtain ⟨fuel, rfl⟩ : ∃ n, fuel = n + 1 := ⟨fuel - 1, by omega⟩
  obtain ⟨taken, column, henter⟩ := enter_nested containers line hrest
  have hall := henter more
  rw [hmore, ← hcontainers] at hall
  have hlength : b.stack.length - (n + containers.length) = more.length - n := by
    have hstack := congrArg List.length hcontainers
    simp only [Builder.containers, List.length_reverse, List.length_map, List.length_append] at hstack
    omega
  obtain ⟨front, hfront, -⟩ := leads_nested containers line hrest
  have hnot_longer : (line ++ rest).length ≤ (nestedLine containers line ++ rest).length := by simp [hfront]
  obtain ⟨next, below, hread, hshorter, hreaches⟩ := h taken column
    ((nestedLine containers line ++ rest).length + 1) (by omega)
  have hblock : b.readBlock size (nestedLine containers line ++ rest) = (next, below) := by
    rw [readBlock_eq, hall, hlength]
    exact hread
  obtain ⟨less, hless, hblocks⟩ := hreaches fuel (by omega)
  refine ⟨less, hless, ?_⟩
  rw [readBlocks, hblock]
  · exact hblocks
  · rw [hfront, List.append_assoc]
    exact fun hnil => hne (List.append_eq_nil_iff.mp hnil).2

end

end Builder

end Literate.Markdown
