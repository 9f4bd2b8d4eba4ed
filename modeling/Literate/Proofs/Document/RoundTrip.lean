import Literate.Proofs.Document.Fragment
import Literate.Proofs.Document.FrontMatter
import Literate.Proofs.Toml.ReadBack

/-!
# Documents read back from their text

A document without code that is run is only read and written, and so what is written should be read as the
same document. Its blocks are read back from their lines (`Blocks.Laid`), with or without front matter above them.
Front matter is written as TOML, and what stands in the strings there is read as Markdown again, so a text in the
metadata is read back if it can be laid out on lines itself (`Metadata.Laid`).

Not every document is read back. A quote with nothing in it is written as nothing at all
(`parse_render_emptyQuote`), while an item with nothing in it keeps its marker. A number or a date in front matter is
written as a string, and what is read of it then is text.

Main result: `Document.parse_render`.
-/

namespace Literate

-- ---------------------------------------------------------------------------
-- Metadata
-- ---------------------------------------------------------------------------

namespace Markdown

theorem Blocks.Laid.ofMarkup {blocks : List Block} {lines : List (List Char)}
    (h : Blocks.Laid false blocks lines) (more : ∀ content, blocks ≠ [.paragraph content]) :
    Metadata.ofMarkup (renderBlocks blocks) = .blocks blocks := by
  rw [Metadata.ofMarkup, h.parseFragment]
  split
  · exact absurd rfl h.ne_nil
  · exact absurd rfl (more _)
  · rfl

theorem ofMarkup_renderInlines {line : TextLine} {lines : List TextLine} (h : ∀ other ∈ line :: lines, other.Fair) :
    Metadata.ofMarkup (renderInlines (contentOf (line :: lines))) = .inlines (contentOf (line :: lines)) := by
  have hlaid : Blocks.Laid false [.paragraph (contentOf (line :: lines))] _ := .single (.paragraph h)
  have htext : renderBlocks [.paragraph (contentOf (line :: lines))] = renderInlines (contentOf (line :: lines)) :=
    joinBlocks_singleton _
  rw [← htext, Metadata.ofMarkup, hlaid.parseFragment]

end Markdown

open Markdown (TextLine)

/-- Metadata that is read back: truth values and texts, and at most so many lists and maps around them, the maps
with increasing keys. -/
inductive Metadata.Laid : Nat → Metadata → Prop where
  | bool (levels : Nat) (value : Bool) : Laid levels (.bool value)
  | empty (levels : Nat) : Laid levels (.inlines [])
  | inlines (levels : Nat) {line : TextLine} {lines : List TextLine} (fair : ∀ other ∈ line :: lines, other.Fair) :
      Laid levels (.inlines (Markdown.contentOf (line :: lines)))
  /-- A paragraph by itself is read as its inlines. -/
  | blocks (levels : Nat) {blocks : List Block} {lines : List (List Char)}
      (laid : Markdown.Blocks.Laid false blocks lines) (more : ∀ content, blocks ≠ [.paragraph content]) :
      Laid levels (.blocks blocks)
  | list {levels : Nat} {items : List Metadata} (inside : ∀ item ∈ items, Laid levels item) :
      Laid (levels + 1) (.list items)
  | map {levels : Nat} {entries : List (String × Metadata)}
      (increasing : (entries.map (·.1)).Pairwise (· < ·)) (inside : ∀ entry ∈ entries, Laid levels entry.2) :
      Laid (levels + 1) (.map entries)

theorem listToToml_eq_map (items : List Metadata) : listToToml items = items.map Metadata.toToml := by
  induction items with
  | nil => rfl
  | cons item items ih => exact congrArg (item.toToml :: ·) ih

theorem mapToToml_eq_map (entries : List (String × Metadata)) :
    mapToToml entries = entries.map fun entry => (entry.1, entry.2.toToml) := by
  induction entries with
  | nil => rfl
  | cons entry entries ih => exact congrArg ((entry.1, entry.2.toToml) :: ·) ih

theorem metadataOfItems_eq_map (items : List Toml.Value) : metadataOfItems items = items.map Metadata.ofToml := by
  induction items with
  | nil => rfl
  | cons item items ih => exact congrArg (Metadata.ofToml item :: ·) ih

theorem metadataOfEntries_eq_map (entries : List (String × Toml.Value)) :
    metadataOfEntries entries = entries.map fun entry => (entry.1, .ofToml entry.2) := by
  induction entries with
  | nil => rfl
  | cons entry entries ih => exact congrArg ((entry.1, Metadata.ofToml entry.2) :: ·) ih

theorem parseFragment_empty : parseFragment "" = [] := by cbv

/-- **Metadata.** A value is read back from its TOML, which is of a kind that is read back itself. -/
theorem Metadata.Laid.ofToml {levels : Nat} {value : Metadata} (h : value.Laid levels) :
    value.toToml.Kept levels ∧ Metadata.ofToml value.toToml = value := by
  induction h with
  | bool levels value => exact ⟨.boolean levels value, rfl⟩
  | empty levels =>
    refine ⟨.string levels _, ?_⟩
    rw [toToml, renderInlines, Metadata.ofToml, ofMarkup, parseFragment_empty]
  | inlines levels fair => exact ⟨.string levels _, Markdown.ofMarkup_renderInlines fair⟩
  | blocks levels laid more => exact ⟨.string levels _, laid.ofMarkup more⟩
  | @list levels items inside ih =>
    rw [toToml, listToToml_eq_map]
    refine ⟨.array ?_, ?_⟩
    · intro item hitem
      obtain ⟨value, hvalue, rfl⟩ := List.mem_map.mp hitem
      exact (ih value hvalue).1
    · rw [Metadata.ofToml, metadataOfItems_eq_map, List.map_map]
      refine congrArg Metadata.list ((List.map_congr_left fun value hvalue => ?_).trans (List.map_id items))
      exact (ih value hvalue).2
  | @map levels entries increasing inside ih =>
    rw [toToml, mapToToml_eq_map]
    refine ⟨.table ?_ ?_, ?_⟩
    · rw [Toml.Increasing, List.map_map]
      exact increasing
    · intro entry hentry
      obtain ⟨other, hother, rfl⟩ := List.mem_map.mp hentry
      exact (ih other hother).1
    · rw [Metadata.ofToml, metadataOfEntries_eq_map, List.map_map]
      refine congrArg Metadata.map ((List.map_congr_left fun entry hentry => ?_).trans (List.map_id entries))
      exact Prod.ext rfl (ih entry hentry).2

namespace Markdown

open Builder

-- ---------------------------------------------------------------------------
-- Blocks below front matter
-- ---------------------------------------------------------------------------

namespace Builder

theorem Reaches.of_readBlock {size : Option Nat} {cs below tail : List Char} {b next last : Builder} (hne : cs ≠ [])
    (hread : b.readBlock size cs = (next, below)) (hshorter : below.length < cs.length)
    (h : Reaches size below next tail last) : Reaches size cs b tail last := by
  intro fuel hfuel
  obtain ⟨fuel, rfl⟩ := Nat.exists_eq_succ_of_ne_zero (Nat.ne_of_gt (Nat.zero_lt_of_lt hfuel))
  obtain ⟨less, hless, hblocks⟩ := h fuel (by omega)
  refine ⟨less, hless, ?_⟩
  rw [readBlocks, hread]
  · exact hblocks
  · exact hne

/-- An empty line, and below it the lines of blocks, if there are any. -/
theorem reaches_body (size : Option Nat) {b : Builder} (hb : b.Settled) (hstack : b.stack = []) {blocks : List Block}
    {body : List Char}
    (h : (blocks = [] ∧ body = []) ∨ ∃ lines, Blocks.Laid false blocks lines ∧ body = joined lines ++ ['\n']) :
    ∃ parts last, Reaches size ('\n' :: body) b [] last ∧ PartsTell false parts blocks ∧
      (last.closeMany last.stack.length).parts = parts.reverse ++ b.parts := by
  have hcontainers : b.containers = [] := by simp [containers, hstack]
  rcases h with ⟨rfl, rfl⟩ | ⟨lines, hlaid, rfl⟩
  · have hblank := hb.open.blank size []
    rw [hcontainers] at hblank
    refine ⟨[], _, hblank, .nil false, ?_⟩
    obtain ⟨stack, parts, afterBlank, bareItem, definitions⟩ := b
    obtain rfl : stack = [] := hstack
    rfl
  · have hloosen : b.loosenOuter = b := by
      obtain ⟨stack, parts, afterBlank, bareItem, definitions⟩ := b
      obtain rfl : stack = [] := hstack
      rfl
    obtain ⟨now, hready, hmark, hnext⟩ := hb.open.next hb
    rw [hloosen] at hready
    obtain ⟨parts, more, last, hreach, htell, hopen⟩ := hlaid.reaches size hb hstack hready hmark (.feed [])
    obtain ⟨line, below, hsplit, hline, hbelow⟩ := hlaid.exists_first (.feed [])
    rw [hsplit] at hreach ⊢
    have hall := hnext hline hbelow hreach
    rw [hcontainers] at hall
    exact ⟨parts, last, hall, htell, congrArg (·.parts) (hopen.closeMany_stack hstack)⟩

end Builder

/-- Front matter and the blocks below it are the parts of a source. -/
theorem exists_partsOf_metadata {line : List Char} {lines : List (List Char)}
    (hlines : ∀ other ∈ line :: lines, IsLiteral other ∧ Text.isPluses (· = ' ') other = false)
    (hbegins : BeginsText line) (hplus : line.head? ≠ some '+') {blocks : List Block} {body : List Char}
    (hbody : (blocks = [] ∧ body = []) ∨ ∃ lines, Blocks.Laid false blocks lines ∧ body = joined lines ++ ['\n']) :
    ∃ places parts, (partsOf true ('+' :: '+' :: '+' :: '\n' ::
        (feeds (line :: lines) ++ '+' :: '+' :: '+' :: '\n' :: '\n' :: body))).1 = .metadata places :: parts ∧
      String.join (places.map (·.2)) = String.ofList (feeds (line :: lines)) ∧ PartsTell false parts blocks := by
  let below := feeds (line :: lines) ++ '+' :: '+' :: '+' :: '\n' :: '\n' :: body
  let source := '+' :: '+' :: '+' :: '\n' :: below
  let size := (String.ofList source).utf8ByteSize
  have hfuel : (line :: lines).length < below.length + 1 := by
    have hlength := length_le_feeds (line :: lines)
    simp only [below, List.length_append]
    omega
  have hliteral : ∀ other ∈ line :: lines, IsLiteral other := fun other hother => (hlines other hother).1
  have hopens := opensMetadata_lines (fun other hother => (hliteral other (List.mem_cons_of_mem _ hother)).1)
    (hliteral line List.mem_cons_self).1 hbegins hplus ('\n' :: body)
  have hread := readBlock_pluses size hopens
  rw [readMetadata_rest hlines hfuel] at hread
  have htext := readMetadata_lines hliteral hfuel ('\n' :: body)
  rw [List.takeWhile_eq_self_iff.mpr fun other hother => by simp [(hlines other hother).2]] at htext
  obtain ⟨parts, last, hreach, htell, hparts⟩ := reaches_body (some size) (settled_empty.add _) rfl hbody
  have hall := Reaches.of_readBlock (List.cons_ne_nil _ _) hread (by simp; omega) hreach
  refine ⟨_, parts, ?_, (join_placed size _).trans (congrArg String.ofList htext), htell⟩
  have hreverse := congrArg List.reverse ((parts_of_reaches hall).trans hparts)
  rw [List.reverse_append, List.reverse_reverse] at hreverse
  exact hreverse

end Markdown

-- ---------------------------------------------------------------------------
-- Documents
-- ---------------------------------------------------------------------------

namespace Markdown

/-- The events of blocks do not begin with front matter. -/
theorem Blocks.Told.frontMatter? {blocks : List Block} {events : List Event} (h : Blocks.Told blocks events) :
    frontMatter? events = none := by
  obtain ⟨raws, hraws, -⟩ := h
  cases hraws with
  | nil => rfl
  | @cons block blocks first rest head tail =>
    cases head with
    | plain ne_nil inside =>
      have hopens := inside.opensInline ne_nil rest
      cases hevents : first ++ rest with
      | nil => rfl
      | cons event others =>
        rw [hevents] at hopens
        unfold Literate.frontMatter?
        split
        · rename_i heq
          cases heq
          cases hopens
        · rfl
    | _ => rfl

end Markdown

namespace Document

open Markdown

/-- Documents that are read back: their metadata has no line that ends the front matter, and it can be laid out as
the blocks can. -/
structure Laid (d : Document) : Prop where
  metadata : (Metadata.map d.metadata).Laid (Toml.depthLimit - 1)
  front : ∀ text ∈ Toml.textsOfEntries (mapToToml d.metadata), ¬ ClosesFrontMatter (· = ' ') text
  blocks : d.blocks = [] ∨ ∃ lines, Blocks.Laid false d.blocks lines

/-- The blocks of a document stand on their lines, with a line feed behind the last. -/
theorem Laid.body {d : Document} (h : d.Laid) {body : List Char}
    (hbody : (if (renderBlocks d.blocks).isEmpty then "" else renderBlocks d.blocks ++ "\n").toList = body) :
    (d.blocks = [] ∧ body = []) ∨
      ∃ lines, Blocks.Laid false d.blocks lines ∧ body = Markdown.joined lines ++ ['\n'] := by
  subst hbody
  rcases h.blocks with hnil | ⟨lines, hlaid⟩
  · exact .inl ⟨hnil, by rw [hnil]; rfl⟩
  · have hne : renderBlocks d.blocks ≠ "" := ne_empty_of_joined hlaid.areLines hlaid.toList_renderBlocks
    refine .inr ⟨lines, hlaid, ?_⟩
    rw [if_neg (by simpa using hne), String.toList_append, hlaid.toList_renderBlocks]
    rfl

/-- The parts of a document without metadata tell of its blocks. -/
theorem Laid.partsOf {d : Document} (h : d.Laid) (hnone : d.metadata = []) :
    PartsTell false (Markdown.partsOf true d.render.toList).1 d.blocks := by
  have hrender : d.render.toList =
      (if (renderBlocks d.blocks).isEmpty then "" else renderBlocks d.blocks ++ "\n").toList := by
    rw [render, hnone]
    rfl
  rcases h.body hrender.symm with ⟨hnil, hempty⟩ | ⟨lines, hlaid, hlines⟩
  · rw [hempty, hnil]
    exact .nil false
  · rw [hlines]
    exact hlaid.partsOf true (.feed [])

theorem Laid.apart {d : Document} (h : d.Laid) : Markdown.apart d.blocks = true := by
  rcases h.blocks with hnil | ⟨lines, hlaid⟩
  · rw [hnil]
    rfl
  · exact hlaid.apart

/-- The metadata of a document is read back from its TOML. -/
theorem Laid.read_toml {d : Document} (h : d.Laid) :
    Toml.read (Toml.printDocument (mapToToml d.metadata)) = .ok (mapToToml d.metadata) ∧
      metadataOfEntries (mapToToml d.metadata) = d.metadata := by
  obtain ⟨hkept, hvalue⟩ := h.metadata.ofToml
  rw [Metadata.toToml] at hkept hvalue
  rw [Metadata.ofToml, Metadata.map.injEq] at hvalue
  exact ⟨Toml.read_printDocument hkept, hvalue⟩

/-- The front matter of a document is found as it is written, with the blocks below it. -/
theorem Laid.frontMatter? {d : Document} (h : d.Laid) (hsome : d.metadata ≠ []) :
    ∃ offset events, Literate.frontMatter? (eventsOf true d.render) =
        some (offset, Toml.printDocument (mapToToml d.metadata), events) ∧ Blocks.Told d.blocks events := by
  obtain ⟨line, lines, hlines, hbegins, hplus⟩ := exists_metadataLines hsome
  have hspace : ∀ c : Char, decide (c = ' ') = true → Text.isBlank c = true := by
    intro c hc
    obtain rfl : c = ' ' := by simpa using hc
    rfl
  have hpluses := (forall_pluses_iff hspace d.metadata).mpr h.front
  have hall : ∀ other ∈ line :: lines, IsLiteral other ∧ Text.isPluses (· = ' ') other = false := by
    intro other hother
    rw [← hlines] at hother
    exact ⟨isLiteral_of_mem_metadataLines hother, hpluses other (List.mem_of_mem_dropLast hother)⟩
  obtain ⟨places, parts, hparts, htext, htell⟩ := exists_partsOf_metadata hall hbegins hplus (h.body rfl)
  rw [← hlines, ← toList_render_metadata hsome] at hparts
  rw [← hlines, feeds_metadataLines, String.ofList_toList] at htext
  have hfound := frontMatter?_cons hparts
  rw [htext] at hfound
  exact ⟨_, _, hfound, htell _⟩

/-- **Documents written and read back.** What is written for a document that can be laid out on lines is read as
the document, with its metadata. -/
theorem parse_render {d : Document} (h : d.Laid) (file : Nat) : parse d.render file = .ok d := by
  rw [parse, ofEvents]
  by_cases hmetadata : d.metadata = []
  · have hevents := h.partsOf hmetadata (partsOf true d.render.toList).2
    rw [eventsOf]
    simp only [hevents.frontMatter?, hevents.blocksOf h.apart]
    rw [ofBlocks, ← hmetadata]
  · obtain ⟨offset, events, hfront, hevents⟩ := h.frontMatter? hmetadata
    obtain ⟨hread, hvalues⟩ := h.read_toml
    simp only [hfront, hread, hvalues, hevents.blocksOf h.apart]

/-- Metadata of two kinds, marks inside of marks, a link around an image, a table with an empty cell, code in a quote,
and two lists, the second of them loose. -/
theorem parse_render_nested :
    let d : Document :=
      ⟨[("draft", .bool true), ("parts", .list [.inlines [.text "one"]])],
        [.heading 1 ⟨"top", ["main"], []⟩ [.text "Notes"],
          .paragraph
            [.emphasis [.text "a ", .strong [.text "b"], .text " c"], .text " ", .code (.ofClasses ["py"]) "f(x)",
              .hardBreak, .link "/c?d=1" "t" [.image "i.png" "" [.text "d"]]],
          .table [.left, .none] (.tableRow [.tableCell [.text "n"], .tableCell [.text "sum"]])
            [.tableRow [.tableCell [.strong [.text "2"]], .tableCell []]],
          .blockQuote [.codeBlock (.ofClasses ["python", "echo"]) "x = 1\n\ny\n", .rule],
          .bulletList [.listItem [.plain [.text "one"]], .listItem [.plain [.text "two"]]],
          .orderedList 1
            [.listItem [.paragraph [.text "three"], .blockQuote [.paragraph [.text "four"]]],
              .listItem [.paragraph [.text "five"]]]]⟩
    parse d.render 0 = .ok d := by
  intro d
  have hfair : ∀ line : TextLine, line.isFair = true → ∀ other ∈ [line], other.Fair := by
    intro line hline
    exact List.forall_mem_singleton.2 (.of_isFair hline)
  have hnotes : TextLine.Fair ⟨[.text "Notes"], false⟩ := .of_isFair (by cbv)
  have hno_sign : (spelling [.text "Notes"]).getLast? ≠ some '#' := by
    simp [spelling, renderInlines, Inline.render]
  have hno_brace : (spelling [.text "Notes"]).getLast? ≠ some '\x7d' := by
    simp [spelling, renderInlines, Inline.render]
  have hheading : Block.Laid false (.heading 1 ⟨"top", ["main"], []⟩ [.text "Notes"]) _ :=
    .heading false (by decide) (by decide) hnotes hno_sign hno_brace ⟨rfl, by simp; decide, by simp; decide⟩
  have hmarks : TextLine.isFair
      ⟨[.emphasis [.text "a ", .strong [.text "b"], .text " c"], .text " ", .code (.ofClasses ["py"]) "f(x)"], true⟩ =
        true := by cbv
  have hlink : TextLine.isFair ⟨[.link "/c?d=1" "t" [.image "i.png" "" [.text "d"]]], false⟩ = true := by cbv
  have htext := List.forall_mem_cons.2 ⟨.of_isFair hmarks, hfair _ hlink⟩
  have hinfo : IsInfo (.ofClasses ["python", "echo"]) := by
    refine ⟨⟨⟨by simp [Attr.ofClasses, Attr.empty, Attr.IsWord], by simp [Attr.ofClasses, Attr.IsWord]; decide,
      by simp [Attr.ofClasses, Attr.empty]⟩, by simp [Attr.ofClasses, Attr.empty]⟩, ?_⟩
    have hshow : (Attr.ofClasses ["python", "echo"]).show.toList = "\x7b.python .echo\x7d".toList := by cbv
    rw [hshow]
    simp
    decide
  have hcode : Block.Laid false (.codeBlock (.ofClasses ["python", "echo"]) "x = 1\n\ny\n")
      (fencedLines (.ofClasses ["python", "echo"]) ["x = 1".toList, [], ['y']]) := by
    have hlines := Block.Laid.code false hinfo (List.cons_ne_nil "x = 1".toList [[], ['y']])
      (by simp [IsLiteral])
    have hfeeds : String.ofList (feeds ["x = 1".toList, [], ['y']]) = "x = 1\n\ny\n" := by cbv
    rw [hfeeds] at hlines
    exact hlines
  have hno_mark : ∀ next : Block, ∀ mark ∈ (none : Option Char), Block.listMark? next ≠ some mark := by
    simp
  have hquote := Block.Laid.quote false (.cons hcode (.single (.rule false)) (hno_mark .rule))
  have hplain : ∀ text : String, TextLine.isFair ⟨[.text text], false⟩ = true →
      Blocks.Laid true [.plain [.text text]] _ := fun text htext => .single (.plain (hfair _ htext))
  have hparagraph : ∀ text : String, TextLine.isFair ⟨[.text text], false⟩ = true →
      Block.Laid false (.paragraph [.text text]) _ := fun text htext => .paragraph (hfair _ htext)
  have hbullet : FitsMarker none := by
    rintro _ ⟨⟩
  have hbullets : Block.Laid false
      (.bulletList [.listItem [.plain [.text "one"]], .listItem [.plain [.text "two"]]]) _ :=
    @Block.Laid.list false none _ _
      (.cons hbullet (hplain "one" (by cbv)) (by simp) (.single hbullet (hplain "two" (by cbv)) (by simp)))
  have hone : FitsMarker (some 1) := by
    rintro _ ⟨⟩
    decide
  have htwo : FitsMarker ((some 1).map (· + 1)) := by
    rintro _ ⟨⟩
    decide
  have hfour := Block.Laid.quote false (.single (hparagraph "four" (by cbv)))
  have hordered : Block.Laid false
      (.orderedList 1
        [.listItem [.paragraph [.text "three"], .blockQuote [.paragraph [.text "four"]]],
          .listItem [.paragraph [.text "five"]]]) _ :=
    @Block.Laid.list false (some 1) _ _
      (.cons hone (.cons (hparagraph "three" (by cbv)) (.single hfour) (hno_mark _)) (by simp)
        (.single htwo (.single (hparagraph "five" (by cbv))) (by simp)))
  have happart : ∀ mark ∈ some '-', some '.' ≠ some mark := by
    rintro _ ⟨⟩
    decide
  have hlists := Blocks.Laid.cons hbullets (.single hordered) happart
  let table : Table := ⟨[.left, .none], [[.text "n"], [.text "sum"]], [[[.strong [.text "2"]], []]]⟩
  have htable : Block.Laid false table.toBlock _ := .table false (.of_isFair (by cbv))
  have hmiddle := Blocks.Laid.cons htable (.cons hquote hlists (hno_mark _)) (hno_mark _)
  have hbelow := Blocks.Laid.cons (.paragraph htext) hmiddle (hno_mark _)
  have hpart : Metadata.Laid 77 (.inlines [.text "one"]) := .inlines 77 (hfair ⟨[.text "one"], false⟩ (by cbv))
  have hmetadata : Metadata.Laid 79 (.map d.metadata) := by
    refine .map (List.pairwise_cons.mpr ⟨?_, List.pairwise_singleton ..⟩) ?_
    · exact List.forall_mem_singleton.mpr (by decide +kernel)
    · simp only [d, List.forall_mem_cons]
      exact ⟨.bool _ true, .list (List.forall_mem_singleton.mpr hpart), List.forall_mem_nil _⟩
  exact parse_render ⟨hmetadata, by decide +kernel, .inr ⟨_, .cons hheading hbelow (hno_mark _)⟩⟩ 0

/-- A quote with nothing in it is read, but written as nothing. -/
theorem parse_render_emptyQuote :
    ∃ d, parse ">\n" 0 = .ok d ∧ d.render = "" ∧ parse d.render 0 ≠ .ok d := by
  have hread : parse ">\n" 0 = .ok (ofBlocks [.blockQuote []]) := by cbv
  have hrender : (ofBlocks [.blockQuote []]).render = "" := by cbv
  have hnothing : parse "" 0 = .ok (ofBlocks []) := by cbv
  refine ⟨_, hread, hrender, ?_⟩
  rw [hrender, hnothing]
  intro h
  cases h

end Document

end Literate
