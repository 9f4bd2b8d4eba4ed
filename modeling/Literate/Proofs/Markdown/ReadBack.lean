import Literate.Proofs.Markdown.Laid

/-!
# Blocks read back from their lines

The scan of a text goes from one builder to another, and where it stands when a block is done depends on what
the last line of the block has left open. So the statement for the induction over `Laid` is about any builder
that is ready for the block and any text that can follow (`Block.Reads`): the scan gets behind the lines of the
block, and the builder there becomes the one before, with one more part, as soon as what is left open in it is
closed (`Open`).

One lemma takes care of each constructor of `Laid`. In a container the lines are those of its content, laid
out in one container more (`laidOut_quoted`, `laidOut_item`); between two blocks stands an empty line, which
loosens the list around them (`Builder.around`).

Main result: `Blocks.Laid.reads`.
-/

namespace Literate.Markdown

open Builder

-- ---------------------------------------------------------------------------
-- Lines in one more container
-- ---------------------------------------------------------------------------

theorem laidOut_append {lines : List (List Char)} (h : lines ≠ []) (containers : List Container)
    (more : List (List Char)) :
    laidOut containers (lines ++ more) =
      laidOut containers lines ++ beneath (more.map (nestedLine containers)) := by
  obtain ⟨line, lines, rfl⟩ := List.exists_cons_of_ne_nil h
  simp [laidOut, beneath_append]

theorem laidOut_congr {containers others : List Container}
    (h : others.map Container.loosened = containers.map Container.loosened)
    (lines : List (List Char)) : laidOut others lines = laidOut containers lines := by
  have hline : nestedLine others = nestedLine containers := funext (nestedLine_congr h)
  cases lines with
  | nil => rfl
  | cons line lines => rw [laidOut, laidOut, hline]

theorem laidOut_quoted (containers : List Container) {line : List Char} (h : line ≠ [])
    (lines : List (List Char)) :
    laidOut containers ((line :: lines).map quotedLine) =
      '>' :: ' ' :: laidOut (containers ++ [.quote]) (line :: lines) := by
  have hquoted : quotedLine line = '>' :: ' ' :: line := by simp [quotedLine, h]
  have hlines : (lines.map quotedLine).map (nestedLine containers) =
      lines.map (nestedLine (containers ++ [.quote])) := by
    rw [List.map_map]
    refine List.map_congr_left fun other _ => ?_
    rw [nestedLine_append]
    rfl
  rw [List.map_cons, laidOut, hlines, hquoted]
  rfl

/-- A list puts nothing in front of a line. -/
theorem nestedLine_list (containers : List Container) (tight : Bool) (mark : Char) (number : Nat)
    (line : List Char) :
    nestedLine (containers ++ [.list tight mark number]) line = nestedLine containers line :=
  nestedLine_append ..

theorem laidOut_item (containers : List Container) (tight : Bool) (mark : Char) (number : Nat)
    (marker line : List Char) (lines : List (List Char)) :
    laidOut containers (itemLines marker (line :: lines)) =
      marker ++ ' ' :: laidOut (containers ++ [.list tight mark number] ++ [.item (marker.length + 1)])
        (line :: lines) := by
  have hlines : (lines.map (indentedLine (marker.length + 1))).map (nestedLine containers) =
      lines.map (nestedLine (containers ++ [.list tight mark number] ++ [.item (marker.length + 1)])) := by
    rw [List.map_map]
    refine List.map_congr_left fun other _ => ?_
    rw [nestedLine_append, nestedLine_append]
    rfl
  rw [itemLines, laidOut, hlines, laidOut, List.append_assoc]
  rfl

-- ---------------------------------------------------------------------------
-- Parts
-- ---------------------------------------------------------------------------

/-- What parts tell are the blocks, whatever is defined elsewhere. -/
def PartsTell (bare : Bool) (parts : List Part) (blocks : List Block) : Prop :=
  ∀ definitions, Blocks.Told blocks (eventsOfParts definitions bare parts)

theorem PartsTell.nil (bare : Bool) : PartsTell bare [] [] :=
  fun _ => .nil

theorem PartsTell.cons {bare : Bool} {part : Part} {parts : List Part} {block : Block}
    {blocks : List Block} (tail : PartsTell bare parts blocks) (head : part.Tells bare block) :
    PartsTell bare (part :: parts) (block :: blocks) :=
  fun definitions => .cons (head definitions) (tail definitions)

theorem PartsTell.single {bare : Bool} {part : Part} {block : Block} (h : part.Tells bare block) :
    PartsTell bare [part] [block] :=
  (PartsTell.nil bare).cons h

theorem PartsTell.item {bare : Bool} {parts : List Part} {blocks : List Block}
    (h : PartsTell bare parts blocks) : (Part.item parts).Tells bare (.listItem blocks) :=
  fun definitions => .listItem (h definitions)

theorem PartsTell.list {tight : Bool} {parts : List Part} {start : Option UInt64} {items : List Block}
    (h : PartsTell tight parts items) (bare : Bool) :
    (Part.list start tight parts).Tells bare (listOf start items) := by
  intro definitions
  cases start with
  | none => exact .bulletList (h definitions)
  | some number => exact .orderedList number (h definitions)

namespace Builder

/-- The builder with more parts, the last of them last. -/
def addAll (parts : List Part) (b : Builder) : Builder :=
  parts.foldl (fun b part => b.add part) b

theorem addAll_enclose (o : OpenContainer) (parts : List Part) (b : Builder) :
    (b.enclose o).addAll parts = b.enclose { o with parts := parts.reverse ++ o.parts } := by
  induction parts generalizing o with
  | nil => rfl
  | cons part parts ih =>
    have hadd : (b.enclose o).add part = b.enclose { o with parts := part :: o.parts } := rfl
    rw [addAll, List.foldl_cons, hadd, ← addAll, ih]
    simp

/-- The builder when blocks have been read where it stands. Between two of them there is an empty
line. -/
def around (blocks : List Block) (b : Builder) : Builder :=
  match blocks with
  | _ :: _ :: _ => b.loosenOuter
  | _ => b

theorem around_loosenOuter (blocks : List Block) (b : Builder) :
    b.loosenOuter.around blocks = b.loosenOuter := by
  match blocks with
  | [] => rfl
  | [_] => rfl
  | _ :: _ :: _ => exact loosenOuter_loosenOuter b

theorem Settled.around_quote {b : Builder} (h : Settled b) (blocks : List Block) :
    (b.enclose ⟨.quote, []⟩).around blocks = b.enclose ⟨.quote, []⟩ := by
  match blocks with
  | [] => rfl
  | [_] => rfl
  | _ :: _ :: _ => exact h.loosenOuter_quote []

/-- A list with an item of more than one block is loose. -/
theorem around_item (b : Builder) (tight : Bool) (mark : Char) (number indent : Nat) (items : List Part)
    {blocks : List Block} (h : blocks ≠ []) :
    ((b.enclose ⟨.list tight mark number, items⟩).enclose ⟨.item indent, []⟩).around blocks =
      (b.enclose ⟨.list (tight && Block.isSingle (.listItem blocks)) mark number, items⟩).enclose
        ⟨.item indent, []⟩ := by
  match blocks with
  | [] => exact absurd rfl h
  | [_] => rw [show Block.isSingle (.listItem [_]) = true from rfl, Bool.and_true]; rfl
  | _ :: _ :: _ =>
    rw [show Block.isSingle (.listItem (_ :: _ :: _)) = false from rfl, Bool.and_false]
    exact loosenOuter_item b tight mark number indent items []

/-- The list that is left when its items have been read. -/
theorem toPart_list (start : Option UInt64) (tight : Bool) (parts : List Part) :
    OpenContainer.toPart ⟨.list tight (markerOf start).mark (markerOf start).number, parts⟩ =
      .list start tight parts.reverse := by
  cases start with
  | none => rfl
  | some number => simp [OpenContainer.toPart, markerOf]

end Builder

-- ---------------------------------------------------------------------------
-- Reading
-- ---------------------------------------------------------------------------

/-- Wherever a block stands, reading gets from behind the marks before its lines to what comes behind
them, with a part that tells of the block. -/
def Block.Reads (bare : Bool) (block : Block) (lines : List (List Char)) : Prop :=
  ∀ (size : Option Nat) ⦃b now : Builder⦄, b.Settled → Ready b now →
    (∀ mark ∈ Block.listMark? block, now.openMark? ≠ some mark) →
    ∀ ⦃lineEnd tail : List Char⦄, EndsLine lineEnd tail → Ends b.containers tail → ∃ part more last,
      ReachesFrom size (laidOut b.containers lines ++ (lineEnd ++ tail)) now tail last ∧
      part.Tells bare block ∧ Open (b.add part) more last ∧ firstMark? more = Block.listMark? block

/-- The same of blocks that stand below each other. -/
def Blocks.Reads (bare : Bool) (blocks : List Block) (lines : List (List Char)) : Prop :=
  ∀ (size : Option Nat) ⦃b now : Builder⦄, b.Settled → Ready b now →
    (∀ mark ∈ blocks.head?.bind Block.listMark?, now.openMark? ≠ some mark) →
    ∀ ⦃lineEnd tail : List Char⦄, EndsLine lineEnd tail → Ends b.containers tail → ∃ parts more last,
      ReachesFrom size (laidOut b.containers lines ++ (lineEnd ++ tail)) now tail last ∧
      PartsTell bare parts blocks ∧ Open ((b.around blocks).addAll parts) more last

/-- The same of items, some of which have been read before. -/
def Items.Reads (bare : Bool) (start : Option UInt64) (items : List Block) (lines : List (List Char)) :
    Prop :=
  ∀ (size : Option Nat) ⦃b now : Builder⦄ ⦃tight : Bool⦄ ⦃number : Nat⦄ ⦃done : List Part⦄, b.Settled →
    now.continueList (markerOf start) = b.enclose ⟨.list tight (markerOf start).mark number, done⟩ →
    ∀ ⦃lineEnd tail : List Char⦄, EndsLine lineEnd tail → Ends b.containers tail → ∃ parts more last,
      ReachesFrom size (laidOut b.containers lines ++ (lineEnd ++ tail)) now tail last ∧
      PartsTell bare parts items ∧
      Open (b.add (OpenContainer.toPart
        ⟨.list (tight && items.all Block.isSingle) (markerOf start).mark number, parts.reverse ++ done⟩))
        more last ∧
      firstMark? more = some (markerOf start).mark

section

variable {bare : Bool} {block next : Block} {blocks items : List Block} {lines more : List (List Char)}
  {start : Option UInt64}

/-- A leaf is read by itself. -/
theorem ReadAsLeaf.reads (h : ReadAsLeaf bare block lines) (hmark : Block.listMark? block = none) :
    Block.Reads bare block lines := by
  intro size b now hb hready _ lineEnd tail hend htail
  obtain ⟨part, hbegins, hread, htells⟩ := h b lineEnd tail hend htail
  refine ⟨part, [], b.add part, .leaf hbegins ?_ ?_, htells, (hb.add part).open, hmark.symm⟩
  · rw [hready.finishList]
    exact hread
  · have hpos := List.length_pos_of_ne_nil hbegins.begins.ne_nil
    cases hend with
    | feed => simp [Nat.lt_add_left]
    | last => exact hpos

theorem Block.Reads.quote (hlaid : Blocks.Laid false blocks lines)
    (h : Blocks.Reads false blocks lines) (bare : Bool) :
    Block.Reads bare (.blockQuote blocks) (lines.map quotedLine) := by
  intro size b now hb hready _ lineEnd tail hend htail
  have hquote := hb.quote []
  have hcontainers := containers_enclose ⟨.quote, []⟩ b
  have hends : Ends (b.enclose ⟨.quote, []⟩).containers tail := by
    rw [hcontainers]
    exact htail.append _
  have hmark : ∀ mark ∈ blocks.head?.bind Block.listMark?,
      (b.enclose ⟨.quote, []⟩).openMark? ≠ some mark := fun _ _ hopen => nomatch hopen
  obtain ⟨parts, open_, last, hreach, htell, hopen⟩ := h size hquote hquote.ready hmark hend hends
  obtain ⟨line, rest, rfl, hline⟩ := hlaid.first
  have hne : line ≠ [] := by
    obtain ⟨c, cs, rfl, -⟩ := hline.begins
    exact List.cons_ne_nil c cs
  rw [hb.around_quote, addAll_enclose] at hopen
  refine ⟨.quote parts, .quote :: open_, last, ?_, fun definitions => .blockQuote (htell definitions), ?_, rfl⟩
  · rw [laidOut_quoted b.containers hne, List.cons_append, List.cons_append]
    refine .quote ?_
    rw [hready.finishList]
    rw [hcontainers] at hreach
    exact hreach
  · have hout := hopen.enclose (.quote hopen.nested)
    simpa [OpenContainer.toPart] using hout

theorem Block.Reads.list (h : Items.Reads (items.all Block.isSingle) start items lines) (bare : Bool) :
    Block.Reads bare (listOf start items) lines := by
  intro size b now hb hready hmark lineEnd tail hend htail
  rw [listMark?_listOf] at hmark ⊢
  have hnow := hready.continueList hb.afterBlank (hmark _ rfl)
  obtain ⟨parts, open_, last, hreach, htell, hopen, hlast⟩ := h size hb hnow hend htail
  rw [Bool.true_and, List.append_nil, toPart_list, List.reverse_reverse] at hopen
  exact ⟨_, open_, last, hreach, htell.list bare, hopen, hlast⟩

theorem Blocks.Reads.single (h : Block.Reads bare block lines) : Blocks.Reads bare [block] lines := by
  intro size b now hb hready hmark lineEnd tail hend htail
  obtain ⟨part, open_, last, hreach, htells, hopen, -⟩ := h size hb hready hmark hend htail
  exact ⟨[part], open_, last, hreach, .single htells, hopen⟩

theorem Blocks.Reads.cons (hlaid : Block.Laid false block lines) (hmore : Blocks.Laid false (next :: blocks) more)
    (apart : ∀ mark ∈ Block.listMark? block, Block.listMark? next ≠ some mark)
    (h : Block.Reads false block lines) (hrest : Blocks.Reads false (next :: blocks) more) :
    Blocks.Reads false (block :: next :: blocks) (lines ++ [] :: more) := by
  intro size b now hb hready hmark lineEnd tail hend htail
  obtain ⟨first, others, rfl, hfirst⟩ := hmore.first
  let rest := beneath (others.map (nestedLine b.containers)) ++ (lineEnd ++ tail)
  have hrest_end : AtEnd rest := hend.atEnd.beneath _
  let below := nestedLine b.containers [] ++ '\n' :: (nestedLine b.containers first ++ rest)
  have hbelow : Ends b.containers below := .blank List.prefix_rfl _
  obtain ⟨part, left, last, hreach, htells, hopen, hleft⟩ := h size hb hready hmark (.feed below) hbelow
  -- the block below is read where the first one stands, in a list that is loose now
  have hadd := hb.add part
  obtain ⟨now', hready', hmark', hnext⟩ := hopen.next hadd
  have hloose : (b.add part).loosenOuter.containers.map Container.loosened =
      b.containers.map Container.loosened := by
    rw [containers_loosenOuter, containers_add]
  have happart : ∀ mark ∈ (next :: blocks).head?.bind Block.listMark?, now'.openMark? ≠ some mark := by
    intro mark hmark
    rw [hmark', hleft]
    intro hblock
    exact apart mark hblock hmark
  obtain ⟨parts, open_, final, hreachRest, htellRest, hopenRest⟩ :=
    hrest size hadd.loosenOuter hready' happart hend (htail.congr hloose)
  rw [around_loosenOuter, loosenOuter_add] at hopenRest
  refine ⟨part :: parts, open_, final, ?_, htellRest.cons htells, hopenRest⟩
  have hne : lines ≠ [] := by
    obtain ⟨line, rest, rfl, -⟩ := hlaid.first
    exact List.cons_ne_nil line rest
  have hlaidOut : laidOut b.containers (lines ++ [] :: first :: others) ++ (lineEnd ++ tail) =
      laidOut b.containers lines ++ (['\n'] ++ below) := by
    rw [laidOut_append hne]
    simp [below, rest, beneath]
  rw [laidOut_congr hloose, laidOut, List.append_assoc] at hreachRest
  have hgoes := hnext hfirst.begins hrest_end hreachRest
  rw [containers_add] at hgoes
  rw [hlaidOut]
  exact hreach.trans hgoes

/-- An item is read where its list is open, up to what comes behind it. -/
theorem Blocks.Reads.item (hlaid : Blocks.Laid bare blocks lines) (h : Blocks.Reads bare blocks lines)
    (hfits : FitsMarker start) (hrule : start = none → blocks.head? ≠ some .rule) (size : Option Nat)
    {b now : Builder} {tight : Bool} {number : Nat} {done : List Part} (hb : b.Settled)
    (hnow : now.continueList (markerOf start) =
      b.enclose ⟨.list tight (markerOf start).mark number, done⟩)
    {lineEnd tail : List Char} (hend : EndsLine lineEnd tail)
    (htail : Ends (b.containers ++ [.list tight (markerOf start).mark number] ++
      [.item ((markerText start).length + 1)]) tail) :
    ∃ parts left last,
      ReachesFrom size (laidOut b.containers (itemLines (markerText start) lines) ++ (lineEnd ++ tail)) now tail
        last ∧
      PartsTell bare parts blocks ∧
      Open ((b.enclose ⟨.list (tight && Block.isSingle (.listItem blocks)) (markerOf start).mark number,
        done⟩).enclose ⟨.item ((markerText start).length + 1), parts.reverse⟩) left last := by
  have hmarker := writesMarker hfits
  let o : OpenContainer := ⟨.list tight (markerOf start).mark number, done⟩
  have hitem := hb.item o ((markerText start).length + 1) []
  have hcontainers : ((b.enclose o).enclose ⟨.item ((markerText start).length + 1), []⟩).containers =
      b.containers ++ [.list tight (markerOf start).mark number] ++
        [.item ((markerText start).length + 1)] := by
    rw [containers_enclose, containers_enclose]
  have hmark : ∀ mark ∈ blocks.head?.bind Block.listMark?,
      ((b.enclose o).enclose ⟨.item ((markerText start).length + 1), []⟩).openMark? ≠ some mark := by
    intro mark _ hopen
    cases hopen
  obtain ⟨parts, left, last, hreach, htell, hopen⟩ := h size hitem hitem.ready hmark hend
    (by rw [hcontainers]; exact htail)
  rw [around_item b tight _ number _ done hlaid.ne_nil, addAll_enclose, List.append_nil] at hopen
  refine ⟨parts, left, last, ?_, htell, hopen⟩
  obtain ⟨line, rest, rfl, hline⟩ := hlaid.first
  have hbegins : BeginsText (laidOut (b.containers ++ [.list tight (markerOf start).mark number] ++
      [.item ((markerText start).length + 1)]) (line :: rest) ++ (lineEnd ++ tail)) := by
    rw [laidOut, List.append_assoc]
    exact hline.begins.append _
  -- A bullet with a rule in the item would be a rule itself.
  have hno_rule : (markerOf start).isBullet = true →
      afterRule? (markerText start ++ ' ' :: (laidOut (b.containers ++
        [.list tight (markerOf start).mark number] ++ [.item ((markerText start).length + 1)])
          (line :: rest) ++ (lineEnd ++ tail))) = none := by
    intro hbullet
    cases start with
    | none =>
      have hother := hline.other.resolve_right (hrule rfl)
      rw [laidOut, List.append_assoc]
      exact afterRule?_bullet hother _
    | some number => cases hbullet
  rw [laidOut_item b.containers tight (markerOf start).mark number, List.append_assoc, List.cons_append]
  refine .item hmarker hbegins hno_rule ?_
  rw [hnow, ← hmarker.width]
  rw [hcontainers] at hreach
  exact hreach

theorem Items.Reads.single (hlaid : Blocks.Laid bare blocks lines) (h : Blocks.Reads bare blocks lines)
    (hfits : FitsMarker start) (hrule : start = none → blocks.head? ≠ some .rule) :
    Items.Reads bare start [.listItem blocks] (itemLines (markerText start) lines) := by
  intro size b now tight number done hb hnow lineEnd tail hend htail
  obtain ⟨parts, left, last, hreach, htell, hopen⟩ :=
    h.item hlaid hfits hrule size hb hnow hend ((htail.append _).append _)
  have hall : [Block.listItem blocks].all Block.isSingle = Block.isSingle (.listItem blocks) := by simp
  have hout := hopen.encloseItem
  rw [List.reverse_reverse] at hout
  rw [hall]
  exact ⟨[.item parts], _, last, hreach, .single htell.item, hout, rfl⟩

theorem Items.Reads.cons (hlaid : Blocks.Laid bare blocks lines) (h : Blocks.Reads bare blocks lines)
    (hfits : FitsMarker start) (hrule : start = none → blocks.head? ≠ some .rule)
    (hmore : Items.Laid bare (start.map (· + 1)) items more)
    (hrest : Items.Reads bare (start.map (· + 1)) items more) :
    Items.Reads bare start (.listItem blocks :: items) (itemLines (markerText start) lines ++ more) := by
  intro size b now tight number done hb hnow lineEnd tail hend htail
  obtain ⟨line, others, rfl, hline⟩ := hmore.first
  let rest := beneath (others.map (nestedLine b.containers)) ++ (lineEnd ++ tail)
  have hrest_end : AtEnd rest := hend.atEnd.beneath _
  let below := nestedLine b.containers line ++ rest
  have hbelow : Ends (b.containers ++ [.list tight (markerOf start).mark number] ++
      [.item ((markerText start).length + 1)]) below := by
    simp only [below]
    rw [← nestedLine_list b.containers tight (markerOf start).mark number]
    exact .item List.prefix_rfl hline.opensItem hrest_end
  obtain ⟨parts, left, last, hreach, htell, hopen⟩ := h.item hlaid hfits hrule size hb hnow (.feed below) hbelow
  -- the next item is read where the list is open, with one more item in it
  have hmark : (markerOf (start.map (· + 1))).mark = (markerOf start).mark := by cases start <;> rfl
  have hcontinue := continueList_enclose_list hb.afterBlank hb.bareItem
    (tight && Block.isSingle (.listItem blocks)) (markerOf (start.map (· + 1))) number
    (.item parts :: done)
  obtain ⟨next, open_, final, hreachRest, htellRest, hopenRest, hlast⟩ :=
    hrest size hb hcontinue hend htail
  rw [hmark] at hreachRest hopenRest hlast
  rw [laidOut, List.append_assoc] at hreachRest
  have hnext := hopen.nextItem (hline.beginsBlock False).begins hrest_end
    (by rw [List.reverse_reverse]; exact hreachRest)
  rw [containers_enclose, nestedLine_list] at hnext
  refine ⟨.item parts :: next, open_, final, ?_, htellRest.cons htell.item, ?_, hlast⟩
  · have hne : itemLines (markerText start) lines ≠ [] := by
      obtain ⟨line, rest, rfl, -⟩ := hlaid.first
      exact List.cons_ne_nil _ _
    have hlaidOut : laidOut b.containers (itemLines (markerText start) lines ++ line :: others) ++
        (lineEnd ++ tail) = laidOut b.containers (itemLines (markerText start) lines) ++ (['\n'] ++ below) := by
      rw [laidOut_append hne]
      simp [below, rest, beneath]
    rw [hlaidOut]
    exact hreach.trans hnext
  · rw [List.all_cons, ← Bool.and_assoc, List.reverse_cons, List.append_assoc]
    exact hopenRest

end

mutual
theorem Block.Laid.reads : ∀ {bare : Bool} {block : Block} {lines : List (List Char)},
    Block.Laid bare block lines → Block.Reads bare block lines
  | _, _, _, .paragraph fair => (readAsLeaf_paragraph fair).reads rfl
  | _, _, _, .plain fair => (readAsLeaf_plain fair).reads rfl
  | _, _, _, .heading bare pos le fair no_sign no_brace names =>
    (readAsLeaf_heading bare pos le fair no_sign no_brace names).reads rfl
  | _, _, _, .code bare info ne_nil literal => (readAsLeaf_code bare info ne_nil literal).reads rfl
  | _, _, _, .table bare fair => (readAsLeaf_table bare fair).reads rfl
  | _, _, _, .rule bare => (readAsLeaf_rule bare).reads rfl
  | _, _, _, .quote bare inside => .quote inside (Blocks.Laid.reads inside) bare
  | _, _, _, .list bare inside => .list (Items.Laid.reads inside) bare
theorem Blocks.Laid.reads : ∀ {bare : Bool} {blocks : List Block} {lines : List (List Char)},
    Blocks.Laid bare blocks lines → Blocks.Reads bare blocks lines
  | _, _, _, .single head => .single (Block.Laid.reads head)
  | _, _, _, .cons head tail apart =>
    .cons head tail apart (Block.Laid.reads head) (Blocks.Laid.reads tail)
theorem Items.Laid.reads : ∀ {bare : Bool} {start : Option UInt64} {items : List Block}
    {lines : List (List Char)}, Items.Laid bare start items lines → Items.Reads bare start items lines
  | _, _, _, _, .single fits inside no_rule => .single inside (Blocks.Laid.reads inside) fits no_rule
  | _, _, _, _, .cons fits inside no_rule tail =>
    .cons inside (Blocks.Laid.reads inside) fits no_rule tail (Items.Laid.reads tail)
end

end Literate.Markdown
