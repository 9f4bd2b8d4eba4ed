import Literate.Proofs.Markdown.Phrase

/-!
# Spelling

A phrase is read from the front to the back. Its text is cut into tokens, and what stands behind an inline is read as
if the text began there; what stands inside marks or brackets is a phrase by itself. So there is one step for each kind
of inline, which says what is read of it once it is known what is read behind it and inside it (`AreSpelled`).

Main result: `Phrase.areSpelled`.
-/

namespace Literate.Markdown

-- ---------------------------------------------------------------------------
-- Behind a phrase
-- ---------------------------------------------------------------------------

section

variable {inTable : Bool} {tail : List Char} {before after : Option Char} {rest : List Char} {tokens : List Token}

/-- What stands behind a phrase: a mark, or the end of the line. -/
structure Follows (after : Option Char) (rest tail : List Char) : Prop where
  head : rest.head? = after
  mark : ∀ c ∈ after, isMark c = true
  ends : after = none → ∀ c ∈ tail.head?, (Text.isBlank c || Text.isPunctuation c) = true

/-- What can close at the end of a line can do so in front of a blank and of punctuation. -/
theorem canCloseRun_of_none {mark : Char} {size : Nat} (h : canCloseRun mark size before none = true)
    (hafter : ∀ c ∈ after, (Text.isBlank c || Text.isPunctuation c) = true) :
    canCloseRun mark size before after = true := by
  cases before with
  | none => cases h
  | some prev =>
    cases after with
    | none => exact h
    | some next =>
      have hnext := hafter next rfl
      have hprev : Text.isBlank prev = false := by
        by_contra hblank
        rw [Bool.not_eq_false] at hblank
        simp [canCloseRun, hblank] at h
      simp only [canCloseRun, hprev, Bool.false_eq_true, if_false]
      rw [Bool.or_assoc, hnext, Bool.or_true]

theorem Follows.closes {mark : Char} {size : Nat} {inlines : List Inline} (h : Follows after rest tail)
    (hcloses : canCloseRun mark size before ((spelling inlines).head?.or after) = true) :
    canCloseRun mark size before ((spelling inlines ++ rest).head?.or tail.head?) = true := by
  rw [List.head?_append, h.head]
  cases hnext : (spelling inlines).head?.or after with
  | some next =>
    rw [hnext] at hcloses
    exact hcloses
  | none =>
    rw [hnext] at hcloses
    rw [Option.none_or]
    exact canCloseRun_of_none hcloses (h.ends (Option.or_eq_none_iff.1 hnext).2)

/-- A run that can open or close is one token. -/
theorem CutFrom.run {mark : Char} {size : Nat}
    (h : CutFrom inTable tail before (List.replicate size mark ++ rest) tokens) (hmarks : AreMarks mark size)
    (hrest : rest.head? ≠ some mark) (hnext : rest.head?.or tail.head? = after)
    (hsome : (canOpenRun mark size before after || canCloseRun mark size before after) = true) :
    ∃ others, tokens = .run mark size (canOpenRun mark size before after) (canCloseRun mark size before after) ::
        others ∧ CutFrom inTable tail (some mark) rest others := by
  obtain ⟨n, rfl⟩ : ∃ n, size = n + 1 := ⟨size - 1, by have := hmarks.size_eq; omega⟩
  have hlength : runLength mark (List.replicate n mark ++ rest) = n := runLength_replicate_append n hrest
  have hdrop : (List.replicate n mark ++ rest).drop n = rest := by simp
  have hmark : isMark mark = true := by rcases hmarks with ⟨rfl, -⟩ | ⟨rfl, -⟩ <;> rfl
  have hkind : (mark = '*' ∨ mark = '_') ∨ mark = '~' := by rcases hmarks with ⟨rfl, -⟩ | ⟨rfl, -⟩ <;> simp
  have hshort : ¬mark = '~' ∨ n ≤ 1 := by
    rcases hmarks with ⟨rfl, -⟩ | ⟨rfl, hsize⟩
    · exact .inl (by decide)
    · exact .inr (by omega)
  have hsize : 1 + n = n + 1 := Nat.add_comm 1 n
  have hslash : mark ≠ '\\' := by rcases hmarks with ⟨rfl, -⟩ | ⟨rfl, -⟩ <;> decide
  have hand : mark ≠ '&' := by rcases hmarks with ⟨rfl, -⟩ | ⟨rfl, -⟩ <;> decide
  have hread (braces : Braces) : (readToken inTable tail before braces (List.replicate (n + 1) mark ++ rest)).1 =
      .run mark (n + 1) (canOpenRun mark (n + 1) before after) (canCloseRun mark (n + 1) before after) := by
    rw [List.replicate_succ, List.cons_append]
    simp only [readToken, hmark, hlength, hsize, Nat.add_sub_cancel, hdrop, hslash, hand, hnext, hsome]
    simp [hkind, hshort]
  have hlast : (List.replicate (n + 1) mark).getLast? = some mark := by rw [List.getLast?_replicate, if_neg (by simp)]
  have hcut := h.token (.run mark (n + 1) _ _) (by simp [Token.raw]) hread
  rwa [Token.raw, hlast] at hcut

end

-- ---------------------------------------------------------------------------
-- Tokens that spell inlines
-- ---------------------------------------------------------------------------

/-- Between some tokens and others that are left inlines are spelled: whatever is read behind them, as long as it does
not begin with text, is read behind the inlines. -/
def Spells (inTable linked nested : Bool) (tokens behind : List Token) (inlines : List Inline) : Prop :=
  ∀ (definitions : Definitions) (more stop : List Token) (later : List Inline), opensText later = false →
    Reads inTable definitions linked nested (behind ++ more) stop later →
      Reads inTable definitions linked nested (tokens ++ more) stop (inlines ++ later)

section

variable {inTable linked nested : Bool} {tail : List Char} {before after : Option Char} {inlines : List Inline}
variable {rest : List Char} {tokens behind : List Token}

/-- What is read of tokens that spell inlines. -/
theorem Spells.reads (h : Spells inTable linked nested tokens behind inlines) (definitions : Definitions)
    (more : List Token) : Reads inTable definitions linked nested (tokens ++ more) (behind ++ more) inlines := by
  have hreads := h definitions more (behind ++ more) [] rfl (.nil _)
  rwa [List.append_nil] at hreads

/-- Tokens that spell inlines tell them. -/
theorem Spells.told {inTable : Bool} {tokens : List Token} {inlines : List Inline}
    (h : Spells inTable false false tokens [] inlines) (definitions : Definitions) :
    Inlines.Told inlines (eventsOfInlines (phrase inTable definitions tokens)) := by
  have hreads := h.reads definitions []
  rw [List.append_nil, List.append_nil] at hreads
  exact hreads.phrase.events

/-- A line break parts the texts on its sides. -/
theorem Spells.lineBreak (h : Spells inTable linked nested tokens [] inlines) {others : List Token}
    {content : List Inline} (hothers : Spells inTable linked nested others behind content) (hard : Bool)
    (raw margin : List Char) :
    Spells inTable linked nested (tokens ++ .lineBreak hard raw margin :: others) behind
      (inlines ++ (if hard then .hardBreak else .softBreak) :: content) := by
  intro definitions more stop later hlater hreads
  have hbreak := (hothers definitions more stop later hlater hreads).lineBreak hard raw margin
  have hopens : opensText ((if hard then .hardBreak else .softBreak) :: (content ++ later)) = false := by
    cases hard <;> rfl
  have hall := h definitions (.lineBreak hard raw margin :: (others ++ more)) stop _ hopens hbreak
  rwa [List.append_assoc, List.append_assoc]

theorem opensText_append {later : List Inline} (h : opensText inlines = false) (hlater : opensText later = false) :
    opensText (inlines ++ later) = false := by
  cases inlines with
  | nil => exact hlater
  | cons inline inlines => exact h

/-- Text that inlines begin with is their own, if nothing else behind them begins with text. -/
theorem exists_text_of_append {later others : List Inline} {text : String} (hlater : opensText later = false)
    (h : inlines ++ later = .text text :: others) : ∃ rest, inlines = .text text :: rest := by
  cases inlines with
  | nil =>
    obtain rfl : later = .text text :: others := h
    cases hlater
  | cons inline inlines =>
    obtain ⟨rfl, -⟩ := List.cons.inj h
    exact ⟨inlines, rfl⟩

theorem splitGroup?_eq_none {text : String} (h : text.toList.head? ≠ some '\x7b') : Attr.splitGroup? text = none := by
  have hnone : Attr.readGroup? text.toList = none := by
    unfold Attr.readGroup?
    split
    · rename_i heq
      rw [heq] at h
      exact absurd rfl h
    · rfl
  rw [Attr.splitGroup?, hnone, Option.map_none]

theorem Phrase.text_ne_empty {text : String} (h : Phrase linked nested before after (.text text :: inlines)) :
    text ≠ "" := by
  cases h with
  | text ne_empty => exact ne_empty
  | marked is_marked => cases is_marked

/-- What stands in front of a text behind some inlines is the last of these, or else what stood before them. -/
theorem getLast?_spelling_cons {inline : Inline} (hne : inline.render.toList ≠ []) :
    (spelling (inline :: inlines)).getLast?.or before =
      (spelling inlines).getLast?.or inline.render.toList.getLast? := by
  obtain ⟨last, hlast⟩ := Option.ne_none_iff_exists'.1 (mt List.getLast?_eq_none_iff.1 hne)
  rw [spelling_cons, List.getLast?_append, Option.or_assoc, hlast, Option.some_or]

end

-- ---------------------------------------------------------------------------
-- One inline after the other
-- ---------------------------------------------------------------------------

/-- Inlines that are spelled by the tokens of their text, between two characters. -/
def AreSpelled (inTable : Bool) (tail : List Char) (linked nested : Bool) (before after : Option Char)
    (inlines : List Inline) : Prop :=
  ∀ rest tokens, Follows after rest tail → CutFrom inTable tail before (spelling inlines ++ rest) tokens →
    ∃ behind, CutFrom inTable tail ((spelling inlines).getLast?.or before) rest behind ∧
      Spells inTable linked nested tokens behind inlines

namespace AreSpelled

variable {inTable linked nested : Bool} {tail : List Char} {before after : Option Char} {inlines content : List Inline}

theorem nil : AreSpelled inTable tail linked nested before after [] :=
  fun _ tokens _ hcut => ⟨tokens, hcut, fun _ _ _ _ _ hreads => hreads⟩

/-- An inline in front of others is spelled if it is read from its own text, whatever is read of the others. -/
theorem cons {inline : Inline} (hne : inline.render.toList ≠ [])
    (hrest : AreSpelled inTable tail linked nested inline.render.toList.getLast? after inlines)
    (h : ∀ rest tokens, Follows after rest tail →
      CutFrom inTable tail before (inline.render.toList ++ (spelling inlines ++ rest)) tokens →
      ∃ others, CutFrom inTable tail inline.render.toList.getLast? (spelling inlines ++ rest) others ∧
        ∀ definitions more stop later, opensText later = false →
          Reads inTable definitions linked nested (others ++ more) stop (inlines ++ later) →
            Reads inTable definitions linked nested (tokens ++ more) stop (inline :: (inlines ++ later))) :
    AreSpelled inTable tail linked nested before after (inline :: inlines) := by
  intro rest tokens hfollows hcut
  rw [spelling_cons, List.append_assoc] at hcut
  obtain ⟨others, hothers, hreads⟩ := h rest tokens hfollows hcut
  obtain ⟨behind, hbehind, hspells⟩ := hrest rest others hfollows hothers
  refine ⟨behind, ?_, fun definitions more stop later hlater hmore => ?_⟩
  · rwa [getLast?_spelling_cons hne]
  · exact hreads definitions more stop later hlater (hspells definitions more stop later hlater hmore)

theorem text {text : String} (hne : text ≠ "")
    (hidle : isIdle before ((spelling inlines).head?.or after) text.toList = true)
    (hmark : ∀ c ∈ (spelling inlines).head?, isMark c = true) (hends : opensText inlines = false)
    (hrest : AreSpelled inTable tail linked nested text.toList.getLast? after inlines) :
    AreSpelled inTable tail linked nested before after (.text text :: inlines) := by
  have hnil : text.toList ≠ [] := by simpa using hne
  refine cons hnil hrest fun rest tokens hfollows hcut => ?_
  have hnext : (spelling inlines ++ rest).head? = (spelling inlines).head?.or after := by
    rw [List.head?_append, hfollows.head]
  have hmarks : ∀ c ∈ (spelling inlines ++ rest).head?, isMark c = true := by
    intro c hc
    rw [hnext] at hc
    rcases Option.or_eq_some_iff.1 hc with hc | ⟨-, hc⟩
    · exact hmark c hc
    · exact hfollows.mark c hc
  rw [← hnext] at hidle
  obtain ⟨pieces, others, rfl, hpieces, hflatten, hothers⟩ := hcut.idle hidle hnil fun _ _ _ => hmarks
  refine ⟨others, hothers, fun definitions more stop later hlater hreads => ?_⟩
  have htexts := hreads.texts hpieces (opensText_append hends hlater)
  rw [hflatten, String.ofList_toList] at htexts
  rwa [List.append_assoc]

/-- Marks are read around what is spelled inside of them. -/
theorem marked {inline : Inline} {mark : Char} {size : Nat} (is_marked : marked? inline = some (mark, size, content))
    (hfits : canSurround nested mark size before ((spelling inlines).head?.or after) (spelling content) = true)
    (hinside : AreSpelled inTable tail linked true (some mark) (some mark) content)
    (hrest : AreSpelled inTable tail linked nested (some mark) after inlines) :
    AreSpelled inTable tail linked nested before after (inline :: inlines) := by
  have hmarks := areMarks_of_marked is_marked
  have hsize : size ≠ 0 := by have := hmarks.size_eq; omega
  have hhead (cs : List Char) : (List.replicate size mark ++ cs).head? = some mark := by
    rw [List.head?_append, List.head?_replicate, if_neg hsize, Option.some_or]
  have hwhole : inline.render.toList.getLast? = some mark := by
    rw [render_marked is_marked, List.getLast?_append, List.getLast?_append, List.getLast?_replicate, if_neg hsize]
    rfl
  simp only [canSurround, Bool.and_eq_true, decide_eq_true_eq, Bool.not_eq_true', Bool.and_eq_false_imp] at hfits
  obtain ⟨⟨⟨⟨hopens, hcloses⟩, hfirst⟩, hnext⟩, hnested⟩ := hfits
  obtain ⟨first, hsome⟩ : ∃ first, (spelling content).head? = some first := by
    refine Option.ne_none_iff_exists'.1 fun hnone => ?_
    rw [hnone] at hopens
    cases hopens
  refine cons (by rw [render_marked is_marked]; simp [hsize]) (by rwa [hwhole]) fun rest tokens hfollows hcut => ?_
  rw [render_marked is_marked, List.append_assoc, List.append_assoc] at hcut
  -- the run that opens, what is inside, and the run that closes
  have hbehind : (spelling content ++ (List.replicate size mark ++ (spelling inlines ++ rest))).head? = some first := by
    rw [List.head?_append, hsome, Option.some_or]
  have hor : (spelling content ++ (List.replicate size mark ++ (spelling inlines ++ rest))).head?.or tail.head? =
      some first := by
    rw [hbehind, Option.some_or]
  rw [hsome] at hopens hfirst hnested
  obtain ⟨inner, rfl, hinner⟩ := hcut.run hmarks (by rwa [hbehind]) hor (by rw [hopens, Bool.true_or])
  obtain ⟨closing, hclosing, hspells⟩ := hinside _ inner
    ⟨hhead _, fun c hc => by cases hc; exact hmarks.isMark, fun hnone => by cases hnone⟩ hinner
  obtain ⟨last, hlast⟩ : ∃ last, (spelling content).getLast? = some last := by
    refine Option.ne_none_iff_exists'.1 fun hnone => ?_
    rw [hnone] at hcloses
    cases hcloses
  rw [hlast, Option.some_or] at hclosing
  rw [hlast] at hcloses
  have hends := hfollows.closes hcloses
  obtain ⟨others, rfl, hothers⟩ := hclosing.run hmarks (by rwa [List.head?_append, hfollows.head]) rfl
    (by rw [hends, Bool.or_true])
  rw [hwhole]
  refine ⟨others, hothers, fun definitions more stop later hlater hreads => ?_⟩
  have hcontent := hspells.reads definitions more
  rw [List.cons_append, hends] at hcontent
  rw [List.cons_append, hopens]
  exact hcontent.marked is_marked hnested hreads

theorem getLast?_renderCode (text : String) : (renderCode .empty text).toList.getLast? = some '\x60' := by
  rw [toList_renderCode, List.getLast?_append, List.getLast?_append, List.getLast?_replicate,
    if_neg (Nat.succ_ne_zero _)]
  rfl

theorem unescapeBars_eq {cs : List Char} (h : '|' ∉ cs) : unescapeBars cs = cs := by
  induction cs with
  | nil => rfl
  | cons c cs ih =>
    rw [List.mem_cons, not_or] at h
    rw [unescapeBars, ih h.2]
    rintro rest - rfl
    exact h.2 List.mem_cons_self

/-- What is read of a span is its text, in a table as elsewhere. -/
theorem codeText_padded {text : String} (h : ∀ c ∈ text.toList, isLineEnd c = false ∧ c ≠ '|')
    (hspaces : ¬ HasOuterSpaces text.toList) : codeText inTable (padded text.toList) = text.toList := by
  have hread := (codeText_padded_iff fun c hc => (h c hc).1).2 hspaces
  cases inTable with
  | false => exact hread
  | true =>
    have hbars : '|' ∉ padded text.toList := by
      intro hmem
      rw [padded] at hmem
      split_ifs at hmem
      · simp only [List.mem_cons, List.mem_append, List.not_mem_nil, or_false] at hmem
        rcases hmem with hmem | hmem | hmem
        exacts [absurd hmem (by decide), (h _ hmem).2 rfl, absurd hmem (by decide)]
      · exact (h _ hmem).2 rfl
    rw [codeText, if_pos rfl, unescapeBars_eq hbars]
    exact hread

/-- A span is found by its own fence, wherever the tokens behind it end. -/
theorem exists_span {attr : Attr} {text : String} (is_code : IsCode attr text after) {below : List Char}
    {tokens : List Token} (hbelow : below.head? ≠ some '\x60')
    (hcut : CutFrom inTable tail before ((renderCode .empty text).toList ++ below) tokens) :
    ∃ span found escaped behind, tokens = .ticks (longestTicks text + 1) false :: span ∧
      CutFrom inTable tail (some '\x60') below behind ∧
      codeText inTable (rawOf found ++ if escaped then ['\\'] else []) = text.toList ∧
      ∀ more, splitAtTicks? (longestTicks text + 1) (span ++ more) = some (found, escaped, behind ++ more) := by
  have hlength := runLength_renderCode is_code.ne_empty below
  have hspan := splitAtRun?_renderCode text hbelow
  rw [← hlength] at hspan
  obtain ⟨span, found, escaped, behind, rfl, hsplit, hinner, hbehind⟩ := hcut.code (by omega) hspan
  rw [hlength] at hsplit ⊢
  refine ⟨span, found, escaped, behind, rfl, hbehind, ?_, splitAtTicks?_append hsplit⟩
  rw [← hinner, codeText_padded is_code.inline is_code.no_spaces]

/-- Code is read up to its own fence, and its attributes from the text behind that. -/
theorem code {attr : Attr} {text : String} (is_code : IsCode attr text ((spelling inlines).head?.or after))
    (htexts : ∀ next others, inlines = .text next :: others → next ≠ "")
    (hrest : AreSpelled inTable tail linked nested (renderCode attr text).toList.getLast? after inlines) :
    AreSpelled inTable tail linked nested before after (.code attr text :: inlines) := by
  have hne : (Inline.code attr text).render.toList ≠ [] := by
    rw [Inline.render, render_code, toList_renderCode]
    simp
  refine cons hne hrest fun rest tokens hfollows hcut => ?_
  have hnext : (spelling inlines ++ rest).head? = (spelling inlines).head?.or after := by
    rw [List.head?_append, hfollows.head]
  rw [Inline.render, render_code, List.append_assoc] at hcut
  rw [Inline.render, render_code]
  have hsize : longestTicks text + 1 ≠ 0 := Nat.succ_ne_zero _
  cases hempty : attr.isEmpty with
  | true =>
    obtain rfl := Attr.eq_empty_of_isEmpty hempty
    have hshow : (Attr.showNonempty .empty).toList = [] := rfl
    rw [hshow, List.nil_append] at hcut
    rw [hshow, List.append_nil, getLast?_renderCode]
    obtain ⟨span, found, escaped, behind, rfl, hbehind, htext, hsplit⟩ :=
      exists_span is_code (hnext ▸ (is_code.alone hempty).1) hcut
    refine ⟨behind, hbehind, fun definitions more stop later hlater hreads => ?_⟩
    refine hreads.code hsize (hsplit more) htext fun next others hopens => ?_
    obtain ⟨own, rfl⟩ := exists_text_of_append hlater hopens
    refine splitGroup?_eq_none fun hbrace => (is_code.alone hempty).2 ?_
    rw [spelling_cons, Inline.render, List.head?_append, hbrace]
    rfl
  | false =>
    obtain ⟨hreadable, hidle⟩ := is_code.group hempty
    have hshow : attr.showNonempty.toList = attr.show.toList := by rw [Attr.showNonempty, hempty]; rfl
    have hgroup : attr.show.toList ≠ [] := by rw [Attr.toList_show]; simp
    have hends : (attr.show.toList ++ (spelling inlines ++ rest)).head? ≠ some '\x60' := by
      rw [Attr.toList_show]
      simp
    rw [hshow] at hcut ⊢
    obtain ⟨span, found, escaped, behind, rfl, hbehind, htext, hsplit⟩ := exists_span is_code hends hcut
    -- a group ends in a brace, so what is behind it may go on with text
    rw [← hnext] at hidle
    obtain ⟨pieces, others, rfl, hpieces, hflatten, hothers⟩ := hbehind.idle hidle hgroup fun last hlast hplain => by
      rw [Attr.toList_show, ← List.cons_append, List.getLast?_concat] at hlast
      cases hlast
      cases hplain
    rw [List.getLast?_append_of_ne_nil _ hgroup]
    refine ⟨others, hothers, fun definitions more stop later hlater hreads => ?_⟩
    refine hreads.group hsize (hsplit more) htext hpieces (List.append_assoc ..) (fun next => ?_)
      fun next others hopens => ?_
    · rw [hflatten, String.ofList_toList]
      exact hreadable.splitGroup?_show next
    · obtain ⟨own, hown⟩ := exists_text_of_append hlater hopens
      exact htexts next own hown

theorem slash_notMem_targetInside {dest title : String} (h : Target.IsWritten dest title) :
    '\\' ∉ targetInside dest title := by
  intro hmem
  have hdest : '\\' ∉ dest.toList := fun hmem => (Target.isWordChar_iff.1 (h.word _ hmem)).2.2.2.1 rfl
  have htitle : '\\' ∉ title.toList := fun hmem => (Target.isTitleChar_iff.1 (h.line _ hmem)).2.2.1 rfl
  by_cases hempty : title = "" <;> simp [targetInside, hempty, hdest, htitle] at hmem

/-- A target is read from the tokens behind a bracket, wherever those end. -/
theorem exists_target {before : Option Char} {dest title : String} (h : Target.IsWritten dest title) {below : List Char}
    {tokens : List Token} (hcut : CutFrom inTable tail before (targetInside dest title ++ ')' :: below) tokens) :
    ∃ behind, CutFrom inTable tail (some ')') below behind ∧
      ∀ more, ∃ cs, Target.readInline? inTable (rawOf (tokens ++ more)) = some (⟨dest, title⟩, cs) ∧
        (splitTokens ((rawOf (tokens ++ more)).length - cs.length) (tokens ++ more)).2 = behind ++ more := by
  have hraw := hcut.isCut.rawOf_eq
  refine ⟨_, hcut.split fun hlast => slash_notMem_targetInside h (List.mem_of_getLast? hlast), fun more => ?_⟩
  refine ⟨below ++ rawOf more, ?_, ?_⟩
  · have hwritten : rawOf (tokens ++ more) = (renderTarget dest title).toList ++ (below ++ rawOf more) := by
      rw [rawOf_append, hraw, toList_renderTarget]
      simp
    rw [hwritten]
    exact Target.readInline?_written h _
  · have hlength : (rawOf (tokens ++ more)).length - (below ++ rawOf more).length =
        (targetInside dest title).length + 1 := by
      rw [rawOf_append, hraw]
      simp only [List.length_append, List.length_cons]
      omega
    have hle : (targetInside dest title).length + 1 ≤ (rawOf tokens).length := by
      rw [hraw]
      simp only [List.length_append, List.length_cons]
      omega
    rw [hlength, splitTokens_append hle]

/-- Brackets are read around what is spelled inside of them, and the target from the text behind them. -/
theorem bracketed (image : Bool) (hlinked : image = false → linked = false) {dest title : String}
    (is_written : Target.IsWritten dest title)
    (hinside : AreSpelled inTable tail (linked || !image) false (some '[') (some ']') content)
    (hrest : AreSpelled inTable tail linked nested (some ')') after inlines) :
    AreSpelled inTable tail linked nested before after
      ((if image then .image dest title content else .link dest title content) :: inlines) := by
  let opening : Token := if image then .imageOpen else .linkOpen
  let inline : Inline := if image then .image dest title content else .link dest title content
  have hrender : inline.render.toList =
      opening.raw ++ (spelling content ++ ']' :: (targetInside dest title ++ [')'])) := by
    cases image
    · exact render_link dest title content
    · exact render_image dest title content
  have hraw : opening.raw ≠ [] := by cases image <;> exact List.cons_ne_nil _ _
  have hbracket : opening.raw.getLast? = some '[' := by cases image <;> rfl
  have hwhole : inline.render.toList.getLast? = some ')' := by
    rw [hrender, ← List.cons_append, ← List.append_assoc, ← List.append_assoc, List.getLast?_concat]
  show AreSpelled inTable tail linked nested before after (inline :: inlines)
  refine cons (by rw [hrender]; simp) (by rwa [hwhole]) fun rest tokens _ hcut => ?_
  rw [hrender, List.append_assoc, List.append_assoc] at hcut
  -- the bracket that opens, what is inside, and the bracket that closes
  obtain ⟨inner, rfl, hinner⟩ := hcut.token opening hraw fun braces => by cases image <;> rfl
  rw [hbracket] at hinner
  obtain ⟨closing, hclosing, hspells⟩ := hinside _ inner
    ⟨rfl, fun c hc => by cases hc; rfl, fun hnone => by cases hnone⟩ hinner
  have hclosed : ']' :: (targetInside dest title ++ [')']) ++ (spelling inlines ++ rest) =
      (Token.linkClose true).raw ++ (targetInside dest title ++ ')' :: (spelling inlines ++ rest)) :=
    congrArg (']' :: ·) (List.append_assoc ..)
  rw [hclosed] at hclosing
  obtain ⟨behind, rfl, hbehind⟩ := hclosing.token (.linkClose true) (List.cons_ne_nil _ _) fun braces => rfl
  obtain ⟨others, hothers, htarget⟩ := exists_target is_written hbehind
  rw [hwhole]
  refine ⟨others, hothers, fun definitions more stop later hlater hreads => ?_⟩
  obtain ⟨cs, hread, hbelow⟩ := htarget more
  exact Reads.link hlinked (hspells.reads definitions more) hread hbelow hreads

end AreSpelled

/-- **Phrases.** Inlines that are a phrase are spelled by the tokens of their text. -/
theorem Phrase.areSpelled {linked nested : Bool} {before after : Option Char} {inlines : List Inline}
    (h : Phrase linked nested before after inlines) (inTable : Bool) (tail : List Char) :
    AreSpelled inTable tail linked nested before after inlines := by
  induction h with
  | nil => exact .nil
  | text ne_empty idle ends rest ih => exact .text ne_empty idle (rest.head_isMark ends) ends ih
  | marked is_marked fits inside rest ih ih_rest => exact .marked is_marked fits ih ih_rest
  | @code linked nested before after attr text inlines is_code rest ih =>
    refine .code is_code (fun next others hnext => ?_) ih
    rw [hnext] at rest
    exact rest.text_ne_empty
  | @link nested before after dest title content inlines target inside rest ih ih_rest =>
    exact .bracketed false (fun _ => rfl) target ih ih_rest
  | @image linked nested before after dest title content inlines target inside rest ih ih_rest =>
    rw [← Bool.or_false linked] at ih
    exact .bracketed true (fun himage => by cases himage) target ih ih_rest

/-- A phrase by itself is spelled by all tokens of its text, up to a blank, punctuation or the end. -/
theorem Phrase.spells {inlines : List Inline} (h : Phrase false false none none inlines) (inTable : Bool)
    {tail : List Char} (htail : ∀ c ∈ tail.head?, (Text.isBlank c || Text.isPunctuation c) = true) (braces : Braces) :
    Spells inTable false false (readTokens inTable tail (spelling inlines).length none braces (spelling inlines)).1 []
      inlines := by
  have hcut : CutFrom inTable tail none (spelling inlines ++ [])
      (readTokens inTable tail (spelling inlines).length none braces (spelling inlines)).1 := by
    rw [List.append_nil]
    exact ⟨braces, rfl⟩
  have hfollows : Follows none [] tail := ⟨rfl, fun c hc => (by cases hc), fun _ => htail⟩
  obtain ⟨behind, hbehind, hspells⟩ := h.areSpelled inTable tail [] _ hfollows hcut
  rwa [hbehind.nil] at hspells

end Literate.Markdown
