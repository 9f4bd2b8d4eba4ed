import Literate.Proofs.Markdown.FrontMatter
import Literate.Proofs.Text.Returns

/-!
# Errors in front matter

An error in front matter is placed in the text that is read as TOML, and the source is told where by adding the
byte at which this text begins. The text is made of lines of the source, from that byte on
(`exists_of_frontMatter?`), but it has line feeds for line ends: carriage returns before line feeds are left out
of it. So the range that is told stands as many bytes in front of the bytes that the error is about as carriage
returns were left out between the beginning and them; it is right exactly if none were.

Main result: `Document.parse_error_span`.
-/

namespace Literate

open Markdown (readMetadata splitLine literalLine textOfPieces partsOf eventsOf eventsOfParts Part)
open Text (dropBefore dropReturn keptPlaces isReturnAt returnsBetween)
open Text.Utf8 (encode)

-- ---------------------------------------------------------------------------
-- The text of front matter
-- ---------------------------------------------------------------------------

namespace Markdown

theorem literalLine_append_feed (line : List Char) :
    literalLine 0 (line ++ ['\n']) = dropReturn line ++ ['\n'] := by
  rcases List.eq_nil_or_concat line with rfl | ⟨front, last, rfl⟩
  · rfl
  · by_cases hlast : last = '\r' <;> simp [literalLine, dropReturn, hlast]

theorem literalLine_of_notMem {line : List Char} (h : '\n' ∉ line) : literalLine 0 line = line := by
  rw [literalLine, List.replicate_zero, List.nil_append]
  split
  · rename_i heq
    exact absurd (List.mem_reverse.mp (heq ▸ List.mem_cons_self)) h
  · rfl

/-- The text of front matter outside of containers is what stands there, without carriage returns before line
feeds. -/
theorem readMetadata_prefix (fuel : Nat) (cs : List Char) :
    textOfPieces (readMetadata [] fuel cs).1 <+: dropBefore '\r' '\n' cs := by
  induction fuel generalizing cs with
  | zero => exact List.nil_prefix
  | succ fuel ih =>
    have henter : enterAll? [] cs = some (.ofLine cs) := rfl
    rw [readMetadata, henter]
    dsimp only
    split
    · exact List.nil_prefix
    · rw [textOfPieces_append, textOfPieces_metadataPieces]
      show literalLine 0 (splitLine cs).1 ++ textOfPieces (readMetadata [] fuel (splitLine cs).2).1 <+:
        dropBefore '\r' '\n' cs
      by_cases hfeed : '\n' ∈ cs
      · obtain ⟨line, below, rfl, hline⟩ := List.eq_append_cons_of_mem hfeed
        rw [splitLine_append hline, literalLine_append_feed, Text.dropBefore_line hline, List.append_assoc,
          List.prefix_append_right_inj]
        exact List.cons_prefix_cons.mpr ⟨rfl, ih below⟩
      · have hbelow := List.prefix_nil.mp (ih [])
        rw [splitLine_of_notMem hfeed, literalLine_of_notMem hfeed, Text.dropBefore_last hfeed, hbelow,
          List.append_nil]

end Markdown

/-- Front matter that is found is from the source behind the byte where it is said to begin. -/
theorem exists_of_frontMatter? {source text : String} {offset : Nat} {rest : List Markdown.Event}
    (h : frontMatter? (eventsOf true source) = some (offset, text, rest)) :
    ∃ front body, source.toList = front ++ body ∧ offset = (encode front).length ∧
      text.toList <+: dropBefore '\r' '\n' body := by
  rcases hparts : partsOf true source.toList with ⟨_ | ⟨part, parts⟩, definitions⟩
  · rw [eventsOf, hparts] at h
    cases h
  · rw [eventsOf, hparts] at h
    cases part with
    | metadata places =>
      have hfirst : (partsOf true source.toList).1 = .metadata places :: parts := congrArg Prod.fst hparts
      obtain ⟨body, ⟨front, hsource⟩, hplaces⟩ := Markdown.isFrontMatter_of_partsOf hfirst
      cases hplaces
      obtain ⟨events, hfound⟩ :=
        Markdown.frontMatter?_placed hsource.symm (fun _ => Markdown.source_of_readMetadata) hfirst
      rw [eventsOf, hparts, h] at hfound
      have hprefix := Markdown.readMetadata_prefix (body.length + 1) body
      cases hpieces : (readMetadata [] (body.length + 1) body).1 with
      | nil =>
        -- No piece says where the text begins, but then there is none.
        rw [hpieces] at hfound
        cases hfound
        exact ⟨[], source.toList, rfl, rfl, List.nil_prefix⟩
      | cons piece pieces =>
        rw [hpieces] at hfound hprefix
        cases hfound
        refine ⟨front, body, hsource.symm, ?_, ?_⟩
        · rw [← Text.Utf8.utf8ByteSize_ofList]
          rfl
        · rwa [String.toList_ofList]
    | _ => simp [eventsOfParts, Part.events, Markdown.Tag.around, frontMatter?] at h

namespace Document

/-- Each byte of the text of front matter is at a place of the source, behind the byte where it begins. -/
theorem exists_place {source text : String} {offset : Nat} {rest : List Markdown.Event}
    (h : frontMatter? (eventsOf true source) = some (offset, text, rest)) {n : Nat}
    (hn : n < text.utf8ByteSize) :
    ∃ place, (keptPlaces (encode source.toList) offset)[n]? = some place ∧
      (encode source.toList)[place]? = (encode text.toList)[n]? := by
  obtain ⟨front, body, hsource, rfl, htext⟩ := exists_of_frontMatter? h
  have hkept : encode text.toList <+: dropBefore 0x0D 0x0A (encode body) := by
    obtain ⟨more, hmore⟩ := htext
    have hbytes := Text.Utf8.encode_dropBefore (a := '\r') (b := '\n') (by decide) (by decide) body
    rw [← hmore, Text.Utf8.encode_append] at hbytes
    exact ⟨encode more, hbytes⟩
  have hsize : n < (encode text.toList).length := by
    rwa [← Text.Utf8.utf8ByteSize_ofList, String.ofList_toList]
  have hbyte : (dropBefore 0x0D 0x0A (encode body))[n]? = some (encode text.toList)[n] := by
    obtain ⟨more, hmore⟩ := hkept
    rw [← hmore, List.getElem?_append_left hsize, List.getElem?_eq_getElem hsize]
  have hplaces := congrArg (·[n]?) (Text.map_keptPlaces (encode front) (encode body))
  simp only [List.getElem?_map, hbyte, Option.map_some] at hplaces
  obtain ⟨place, hplace, hthere⟩ := Option.map_eq_some_iff.mp hplaces
  rw [hsource, Text.Utf8.encode_append, List.getElem?_eq_getElem hsize]
  exact ⟨place, hplace, hthere⟩

/-- **Errors in front matter.** Each byte of the text that is read as TOML is at a place of the source, and what
is told of an error in it stands in front of the places of its first and last byte by as many bytes as there are
carriage returns left out up to there. So the range is that of these places exactly if there are none between
the beginning of the text and the last byte. -/
theorem parse_error_span {source text : String} {offset : Nat} {rest : List Markdown.Event}
    {e : Toml.ReadError} (hfront : frontMatter? (eventsOf true source) = some (offset, text, rest))
    (hread : Toml.read text = .error e) (hnonempty : e.span.start < e.span.stop)
    (hinside : e.span.stop ≤ text.utf8ByteSize) (file : Nat) :
    let bytes := encode source.toList
    let places := keptPlaces bytes offset
    (∀ n, n < text.utf8ByteSize →
        ∃ place, places[n]? = some place ∧ bytes[place]? = (encode text.toList)[n]?) ∧
      ∃ first last span, places[e.span.start]? = some first ∧ places[e.span.stop - 1]? = some last ∧
        parse source file = .error [⟨"invalid front matter", span, file, [e.message]⟩] ∧
        span.start + returnsBetween bytes offset first = first ∧
        span.stop + returnsBetween bytes offset last = last + 1 ∧
        (span = ⟨first, last + 1⟩ ↔
          ∀ place, offset ≤ place → place < last → isReturnAt bytes place = false) := by
  intro bytes places
  refine ⟨fun n hn => exists_place hfront hn, ?_⟩
  obtain ⟨first, hfirst, -⟩ := exists_place hfront (Nat.lt_of_lt_of_le hnonempty hinside)
  obtain ⟨last, hlast, -⟩ := exists_place hfront (show e.span.stop - 1 < text.utf8ByteSize by omega)
  have hparse : parse source file = .error [.ofToml e offset file] := by
    rw [parse, ofEvents, hfront]
    simp only [hread]
  have hfirst_eq : first = offset + e.span.start + returnsBetween bytes offset first :=
    Text.eq_add_of_keptPlaces hfirst
  have hlast_eq : last = offset + (e.span.stop - 1) + returnsBetween bytes offset last :=
    Text.eq_add_of_keptPlaces hlast
  have hle := Text.le_of_keptPlaces (by omega) hfirst hlast
  refine ⟨first, last, ⟨e.span.start + offset, e.span.stop + offset⟩, hfirst, hlast, hparse, ?_, ?_, ?_⟩
  · show e.span.start + offset + _ = first
    omega
  · show e.span.stop + offset + _ = last + 1
    omega
  · rw [Toml.Span.mk.injEq, ← Text.returnsBetween_eq_zero_iff]
    constructor
    · omega
    · intro hnone
      have hbefore : returnsBetween bytes offset first = 0 :=
        Text.returnsBetween_eq_zero_iff.mpr fun place hplace hlt =>
          Text.returnsBetween_eq_zero_iff.mp hnone place hplace (Nat.lt_of_lt_of_le hlt hle)
      omega

/-- With line feeds for line ends, an error behind a character of two bytes is told at its place. -/
theorem parse_error_span_feeds :
    let source := "+++\nk = \"ü\"\nb = \n+++\n"
    let text := "k = \"ü\"\nb = \n"
    let e : Toml.ReadError := ⟨.malformed ⟨some .string, [.text "\"", .text "'"], none⟩, ⟨13, 14⟩⟩
    frontMatter? (eventsOf true source) = some (4, text, []) ∧ Toml.read text = .error e ∧
      e.span.start < e.span.stop ∧ e.span.stop ≤ text.utf8ByteSize ∧
      parse source 0 = .error [⟨"invalid front matter", ⟨17, 18⟩, 0, [e.message]⟩] := by
  intro source text e
  have hfront : frontMatter? (eventsOf true source) = some (4, text, []) := by cbv
  have hread : Toml.read text = .error e := by cbv
  obtain ⟨-, first, last, span, hfirst, hlast, hparse, hstart, hstop, -⟩ :=
    parse_error_span hfront hread (by decide) (by decide) 0
  have hplace : (keptPlaces (encode source.toList) 4)[13]? = some 17 := by cbv
  obtain rfl : first = 17 := Option.some.inj (hfirst.symm.trans hplace)
  obtain rfl : last = 17 := Option.some.inj (hlast.symm.trans hplace)
  have hnone : returnsBetween (encode source.toList) 4 17 = 0 := by cbv
  rw [hnone] at hstart hstop
  obtain ⟨start, stop⟩ := span
  obtain rfl : start = 17 := hstart
  obtain rfl : stop = 18 := hstop
  exact ⟨hfront, hread, by decide, by decide, hparse⟩

/-- With a carriage return in each line end, an error in the second line is told two bytes in front of its
place. -/
theorem parse_error_span_returns :
    let source := "+++\r\na = 1\r\nb = \r\n+++\r\n"
    let text := "a = 1\nb = \n"
    let e : Toml.ReadError := ⟨.malformed ⟨some .string, [.text "\"", .text "'"], none⟩, ⟨10, 11⟩⟩
    frontMatter? (eventsOf true source) = some (5, text, []) ∧ Toml.read text = .error e ∧
      (keptPlaces (encode source.toList) 5)[10]? = some 17 ∧
      parse source 0 = .error [⟨"invalid front matter", ⟨15, 16⟩, 0, [e.message]⟩] := by
  intro source text e
  have hfront : frontMatter? (eventsOf true source) = some (5, text, []) := by cbv
  have hread : Toml.read text = .error e := by cbv
  refine ⟨hfront, hread, by cbv, ?_⟩
  rw [parse, ofEvents, hfront]
  simp only [hread]
  rfl

end Document

end Literate
