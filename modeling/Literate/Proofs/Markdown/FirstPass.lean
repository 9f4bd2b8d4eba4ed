import Literate.Proofs.Markdown.Cutting
import Literate.Proofs.Markdown.Telling

/-!
# Two passes over tokens

The first pass collects pieces, and takes several tokens at once where code or the target of a link stands. How it
gets on over some tokens does not depend on what it has read, as long as no link is open around that it could not
stand in (`Reading.Admits`). The second matches runs of marks, and what it does with some pieces depends on the
openers around only if one of the runs could close those (`Matches`). Where both can be said of tokens and of what
becomes of them, the tokens are read as inlines (`Reads`), and there is one lemma for each kind of inline to put
that together from the inside to the outside and from the back to the front.

Main result: `Reads.phrase`.
-/

namespace Literate.Markdown

open Emphasis (State Opener)

-- ---------------------------------------------------------------------------
-- Steps of the first pass
-- ---------------------------------------------------------------------------

/-- The first pass gets from some tokens to others, with fuel for each token. -/
def Passes (inTable : Bool) (definitions : Definitions) (r : Reading) (tokens : List Token) (next : Reading)
    (behind : List Token) : Prop :=
  ∀ fuel, tokens.length ≤ fuel → ∃ less, behind.length ≤ less ∧
    readPhrases inTable definitions fuel r tokens = readPhrases inTable definitions less next behind

section

variable {inTable : Bool} {definitions : Definitions} {r next last : Reading} {tokens behind rest : List Token}

theorem Passes.refl (r : Reading) (tokens : List Token) : Passes inTable definitions r tokens r tokens :=
  fun fuel hfuel => ⟨fuel, hfuel, rfl⟩

theorem Passes.trans (h : Passes inTable definitions r tokens next behind)
    (hlater : Passes inTable definitions next behind last rest) : Passes inTable definitions r tokens last rest := by
  intro fuel hfuel
  obtain ⟨less, hless, hread⟩ := h fuel hfuel
  obtain ⟨least, hleast, hrest⟩ := hlater less hless
  exact ⟨least, hleast, hread.trans hrest⟩

theorem Passes.of_step {token : Token} (h : readPhrase inTable definitions r token tokens = (next, behind))
    (hle : behind.length ≤ tokens.length) : Passes inTable definitions r (token :: tokens) next behind := by
  intro fuel hfuel
  rw [List.length_cons] at hfuel
  obtain ⟨fuel, rfl⟩ : ∃ n, fuel = n + 1 := ⟨fuel - 1, by omega⟩
  refine ⟨fuel, by omega, ?_⟩
  rw [readPhrases, h]

/-- The pass ends where no token is left. -/
theorem Passes.readPhrases (h : Passes inTable definitions r tokens next []) :
    Markdown.readPhrases inTable definitions tokens.length r tokens = next := by
  obtain ⟨less, -, hread⟩ := h tokens.length (Nat.le_refl _)
  rw [hread]
  cases less <;> rfl

end

-- ---------------------------------------------------------------------------
-- Readings
-- ---------------------------------------------------------------------------

/-- Whether links may be read: outside of links all brackets that are open are those of images. -/
def Reading.Admits (linked : Bool) (r : Reading) : Prop :=
  linked = false → ∀ bracket ∈ r.brackets, bracket.image = true

namespace Reading

variable {linked : Bool} {r : Reading}

theorem append_append (first second : List Piece) (r : Reading) :
    (r.append first).append second = r.append (second ++ first) := by
  obtain ⟨brackets, pieces⟩ := r
  cases brackets <;> simp [append]

theorem append_nil (r : Reading) : r.append [] = r := by
  obtain ⟨brackets, pieces⟩ := r
  cases brackets <;> rfl

theorem Admits.append (h : r.Admits linked) (pieces : List Piece) : (r.append pieces).Admits linked := by
  obtain ⟨brackets, before⟩ := r
  cases brackets with
  | nil => exact h
  | cons bracket brackets =>
    intro hlinked
    obtain ⟨hfirst, hothers⟩ := List.forall_mem_cons.1 (h hlinked)
    exact List.forall_mem_cons.2 ⟨hfirst, hothers⟩

end Reading

-- ---------------------------------------------------------------------------
-- Matching
-- ---------------------------------------------------------------------------

/-- Pieces are matched to inlines. Outside of marks that is said for no openers around. -/
def Matches (nested : Bool) (pieces : List Piece) (inlines : List Inline) : Prop :=
  ∀ s : State, (nested = false → s.openers = []) → pieces.foldl State.push s = s.append inlines.reverse

theorem append_append_state (first second : List Inline) (s : State) :
    (s.append first).append second = s.append (second ++ first) := by
  obtain ⟨openers, content⟩ := s
  cases openers <;> simp [State.append]

theorem openers_append (inlines : List Inline) {s : State} (h : s.openers = []) : (s.append inlines).openers = [] := by
  obtain ⟨openers, content⟩ := s
  obtain rfl : openers = [] := h
  rfl

namespace Matches

variable {nested : Bool} {pieces more : List Piece} {inlines others : List Inline}

theorem nil (nested : Bool) : Matches nested [] [] := by
  intro s _
  obtain ⟨openers, content⟩ := s
  cases openers <;> rfl

theorem append (h : Matches nested pieces inlines) (hmore : Matches nested more others) :
    Matches nested (pieces ++ more) (inlines ++ others) := by
  intro s hs
  rw [List.foldl_append, h s hs, hmore _ fun hnested => openers_append _ (hs hnested), append_append_state,
    List.reverse_append]

theorem node (nested : Bool) (inline : Inline) : Matches nested [.node inline] [inline] :=
  fun _ _ => rfl

theorem nodes (nested : Bool) (inlines : List Inline) : Matches nested (inlines.map .node) inlines := by
  induction inlines with
  | nil => exact nil nested
  | cons inline inlines ih => exact (node nested inline).append ih

/-- All that is matched outside of marks is left as it is. -/
theorem resolve (h : Matches false pieces inlines) : Markdown.resolve pieces = inlines := by
  have hstate := h State.empty fun _ => rfl
  rw [Markdown.resolve, hstate]
  simp [State.append, State.empty, Emphasis.giveUp]

end Matches

/-- A bracket becomes a link or an image with the target behind it, and no link around it comes to nothing. -/
theorem Reading.addLink_admitted {linked : Bool} {raws : List Inline} {r : Reading} (hr : r.Admits linked)
    {image : Bool} (hlinked : image = false → linked = false) (target : Target) (after : List Token)
    {pieces : List Piece} (hpieces : Matches false pieces raws) :
    Reading.addLink ⟨image, true, after, pieces.reverse⟩ target r.brackets
        ⟨⟨image, true, after, pieces.reverse⟩ :: r.brackets, r.pieces⟩ =
      r.add (.node (if image then .image target.destination target.title raws
        else .link target.destination target.title raws)) := by
  have hresolve : resolve pieces.reverse.reverse = raws := by rw [List.reverse_reverse, hpieces.resolve]
  rw [Reading.addLink, hresolve]
  cases image with
  | true => rfl
  | false =>
    have hmap : r.brackets.map (fun c => { c with live := c.live && c.image }) = r.brackets := by
      refine (List.map_congr_left fun bracket hbracket => ?_).trans (List.map_id _)
      have himage := hr (hlinked rfl) bracket hbracket
      obtain ⟨image, live, after, pieces⟩ := bracket
      obtain rfl : image = true := himage
      rw [Bool.and_true]
      rfl
    simp only [Bool.false_eq_true, if_false, hmap]

/-- What stands inside the marks of an inline, which mark it is, and how often it is written. -/
def marked? : Inline → Option (Char × Nat × List Inline)
  | .emphasis content => some ('*', 1, content)
  | .strong content => some ('*', 2, content)
  | .strikethrough content => some ('~', 2, content)
  | _ => none

/-- The marks that inlines are set in. -/
def AreMarks (mark : Char) (size : Nat) : Prop :=
  (mark = '*' ∧ (size = 1 ∨ size = 2)) ∨ (mark = '~' ∧ size = 2)

theorem areMarks_of_marked {inline : Inline} {mark : Char} {size : Nat} {content : List Inline}
    (h : marked? inline = some (mark, size, content)) : AreMarks mark size := by
  unfold marked? at h
  split at h <;> cases h
  · exact .inl ⟨rfl, .inl rfl⟩
  · exact .inl ⟨rfl, .inr rfl⟩
  · exact .inr ⟨rfl, rfl⟩

/-- Marks around inlines that tell the content of an inline make one that tells the inline. -/
theorem exists_wrap {inline : Inline} {mark : Char} {size : Nat} {content raws : List Inline}
    (h : marked? inline = some (mark, size, content)) (htells : Tells raws content) :
    ∃ raw, Emphasis.wrap mark size raws = [raw] ∧ Inline.isText raw = false ∧
      (∀ attr text, raw ≠ .code attr text) ∧ Inline.isTold raw = true ∧ Inline.attach raw = inline := by
  obtain ⟨htold, rfl⟩ := htells
  unfold marked? at h
  split at h <;> cases h
  · exact ⟨.emphasis raws, rfl, rfl, by simp, htold, rfl⟩
  · exact ⟨.strong raws, rfl, rfl, by simp, htold, rfl⟩
  · exact ⟨.strikethrough raws, rfl, rfl, by simp, htold, rfl⟩

section

variable {mark : Char} {size : Nat} (hmarks : AreMarks mark size)
include hmarks

theorem AreMarks.size_eq : size = 1 ∨ size = 2 :=
  hmarks.elim And.right (.inr ·.2)

theorem AreMarks.isMark : isMark mark = true := by
  rcases hmarks with ⟨rfl, -⟩ | ⟨rfl, -⟩ <;> rfl

/-- A run that may open does so, unless there are openers that it could close. -/
theorem push_opening {closes : Bool} {s : State} (h : closes = true → s.openers = []) :
    s.push (.run mark size true closes) = { s with openers := ⟨mark, size, size, closes, []⟩ :: s.openers } := by
  obtain ⟨n, rfl⟩ : ∃ n, size = n + 1 := ⟨size - 1, by have := hmarks.size_eq; omega⟩
  obtain ⟨openers, content⟩ := s
  cases closes with
  | true =>
    obtain rfl : openers = [] := h rfl
    simp [State.push, Emphasis.close, Emphasis.findOpener?, Emphasis.giveUp]
  | false => simp [State.push]

/-- A run that may close does so with an opener of its own mark and size. -/
theorem push_closing (opens closes : Bool) (inside content : List Inline) (openers : List Opener) :
    State.push ⟨⟨mark, size, size, closes, inside⟩ :: openers, content⟩ (.run mark size opens true) =
      State.append (Emphasis.wrap mark size inside.reverse) ⟨openers, content⟩ := by
  have hfits : Opener.fits ⟨mark, size, size, closes, inside⟩ mark size opens = true := by
    rcases hmarks.size_eq with rfl | rfl <;> simp [Opener.fits]
  have hclose : Emphasis.close mark size opens size size
      ⟨⟨mark, size, size, closes, inside⟩ :: openers, content⟩ =
        (0, State.append (Emphasis.wrap mark size inside.reverse) ⟨openers, content⟩) := by
    rcases hmarks.size_eq with rfl | rfl <;> simp [Emphasis.close, Emphasis.findOpener?, hfits]
  simp [State.push, hclose]

/-- Runs around pieces that are matched inside of marks are matched to each other. -/
theorem Matches.marked {nested opens closes : Bool} (hcloses : nested = true → closes = false) {pieces : List Piece}
    {inlines : List Inline} (h : Matches true pieces inlines) :
    Matches nested (.run mark size true closes :: (pieces ++ [.run mark size opens true]))
      (Emphasis.wrap mark size inlines) := by
  intro s hs
  have hnone : closes = true → s.openers = [] := by
    intro hclosing
    cases nested with
    | true =>
      rw [hcloses rfl] at hclosing
      cases hclosing
    | false => exact hs rfl
  have hopening := push_opening hmarks hnone
  have hinside := h ⟨⟨mark, size, size, closes, []⟩ :: s.openers, s.content⟩ (by simp)
  have hwrap : (Emphasis.wrap mark size inlines).reverse = Emphasis.wrap mark size inlines := by
    rcases hmarks.size_eq with rfl | rfl <;> rfl
  rw [List.foldl_cons, hopening, List.foldl_append, hinside, List.foldl_cons, List.foldl_nil]
  show State.push ⟨⟨mark, size, size, closes, inlines.reverse ++ []⟩ :: s.openers, s.content⟩ _ = _
  rw [push_closing hmarks, List.append_nil, List.reverse_reverse, hwrap]

end

-- ---------------------------------------------------------------------------
-- Both passes
-- ---------------------------------------------------------------------------

variable {inTable : Bool} {definitions : Definitions} {linked nested : Bool} {tokens behind rest : List Token}
variable {raws more inlines : List Inline}

/-- Over some tokens, up to others, the first pass collects pieces that the second matches to inlines. -/
def Collects (inTable : Bool) (definitions : Definitions) (linked nested : Bool) (tokens behind : List Token)
    (raws : List Inline) : Prop :=
  ∀ r : Reading, r.Admits linked → ∃ pieces,
    Passes inTable definitions r tokens (r.append pieces.reverse) behind ∧ Matches nested pieces raws

namespace Collects

theorem nil (tokens : List Token) : Collects inTable definitions linked nested tokens tokens [] := by
  intro r _
  refine ⟨[], ?_, .nil nested⟩
  rw [List.reverse_nil, Reading.append_nil]
  exact .refl r tokens

theorem append (h : Collects inTable definitions linked nested tokens behind raws)
    (hmore : Collects inTable definitions linked nested behind rest more) :
    Collects inTable definitions linked nested tokens rest (raws ++ more) := by
  intro r hr
  obtain ⟨pieces, hpass, hmatch⟩ := h r hr
  obtain ⟨others, hlater, hothers⟩ := hmore _ (hr.append pieces.reverse)
  refine ⟨pieces ++ others, ?_, hmatch.append hothers⟩
  rw [Reading.append_append, ← List.reverse_append] at hlater
  exact hpass.trans hlater

/-- A token that becomes an inline, and perhaps takes others behind it with it. -/
theorem of_step {token : Token} {inline : Inline}
    (h : ∀ r, readPhrase inTable definitions r token tokens = (r.add (.node inline), behind))
    (hle : behind.length ≤ tokens.length) :
    Collects inTable definitions linked nested (token :: tokens) behind [inline] :=
  fun r _ => ⟨[.node inline], .of_step (h r) hle, .node nested inline⟩

theorem texts (texts : List (List Char)) (tokens : List Token) :
    Collects inTable definitions linked nested (texts.map Token.text ++ tokens) tokens
      ((texts.map String.ofList).map .text) := by
  induction texts with
  | nil => exact nil tokens
  | cons text texts ih => exact (of_step (fun _ => rfl) (Nat.le_refl _)).append ih

theorem lineBreak (hard : Bool) (raw margin : List Char) (tokens : List Token) :
    Collects inTable definitions linked nested (.lineBreak hard raw margin :: tokens) tokens
      [if hard then .hardBreak else .softBreak] :=
  of_step (fun _ => rfl) (Nat.le_refl _)

/-- A run of backticks takes what is found as its span. -/
theorem code {size : Nat} (hsize : size ≠ 0) {found : List Token} {escaped : Bool}
    (h : splitAtTicks? size tokens = some (found, escaped, behind)) :
    Collects inTable definitions linked nested (.ticks size false :: tokens) behind
      [.code Attr.empty (String.ofList (codeText inTable (rawOf found ++ if escaped then ['\\'] else [])))] := by
  refine of_step (fun r => ?_) ?_
  · simp [readPhrase, hsize, h]
  · rw [eq_append_of_splitAtTicks? h, List.length_append, List.length_cons]
    omega

/-- Runs that can open and close are matched to each other around what stands between them. -/
theorem marked {mark : Char} {size : Nat} (hmarks : AreMarks mark size) {opens closes : Bool}
    (hcloses : nested = true → closes = false)
    (h : Collects inTable definitions linked true tokens (.run mark size opens true :: behind) raws) :
    Collects inTable definitions linked nested (.run mark size true closes :: tokens) behind
      (Emphasis.wrap mark size raws) := by
  intro r hr
  let opening := Piece.run mark size true closes
  let closing := Piece.run mark size opens true
  obtain ⟨pieces, hpass, hmatch⟩ := h _ (hr.append [opening])
  refine ⟨opening :: (pieces ++ [closing]), ?_, hmatch.marked hmarks hcloses⟩
  have hfirst : Passes inTable definitions r (.run mark size true closes :: tokens) (r.append [opening]) tokens :=
    .of_step rfl (Nat.le_refl _)
  have hlast : ∀ next : Reading,
      Passes inTable definitions next (.run mark size opens true :: behind) (next.append [closing]) behind :=
    fun next => .of_step rfl (Nat.le_refl _)
  have hall := (hfirst.trans hpass).trans (hlast _)
  rw [Reading.append_append, Reading.append_append] at hall
  simpa using hall

/-- Brackets around what is read, and a target behind them. -/
theorem link {image : Bool} (hlinked : image = false → linked = false) {free : Bool} {target : Target}
    {inside : List Token} {cs : List Char}
    (h : Collects inTable definitions (linked || !image) false tokens (.linkClose free :: inside) raws)
    (htarget : Target.readInline? inTable (rawOf inside) = some (target, cs)) :
    Collects inTable definitions linked nested ((if image then .imageOpen else .linkOpen) :: tokens)
      (splitTokens ((rawOf inside).length - cs.length) inside).2
      [if image then .image target.destination target.title raws
        else .link target.destination target.title raws] := by
  intro r hr
  let opened : Reading := ⟨⟨image, true, tokens, []⟩ :: r.brackets, r.pieces⟩
  have hopened : opened.Admits (linked || !image) := by
    intro hnone
    rw [Bool.or_eq_false_iff, Bool.not_eq_false'] at hnone
    exact List.forall_mem_cons.2 ⟨hnone.2, hr hnone.1⟩
  obtain ⟨pieces, hpass, hmatch⟩ := h opened hopened
  have hfirst : Passes inTable definitions r ((if image then .imageOpen else .linkOpen) :: tokens) opened tokens := by
    cases image <;> exact .of_step rfl (Nat.le_refl _)
  refine ⟨[_], (hfirst.trans hpass).trans (.of_step ?_ (length_splitTokens_le _ inside)), .node nested _⟩
  have hread : readLink? inTable definitions free ⟨image, true, tokens, pieces.reverse⟩ inside =
      (some target, (splitTokens ((rawOf inside).length - cs.length) inside).2) := by
    simp only [readLink?, htarget]
  have hadd := Reading.addLink_admitted hr hlinked target tokens hmatch
  simp only [opened, Reading.append, List.append_nil, readPhrase, if_true, hread, hadd]
  rfl

/-- What is collected of all tokens is what they are read as. -/
theorem phrase (h : Collects inTable definitions false false tokens [] raws) :
    Markdown.phrase inTable definitions tokens = raws := by
  obtain ⟨pieces, hpass, hmatch⟩ := h .empty fun _ => List.forall_mem_nil _
  rw [Markdown.phrase, hpass.readPhrases]
  have hfinish : (Reading.empty.append pieces.reverse).finish = pieces := by
    simp [Reading.append, Reading.empty, Reading.finish]
  rw [hfinish, hmatch.resolve]

end Collects

/-- Some tokens, up to others, are read as inlines, with the groups still to be attached. -/
def Reads (inTable : Bool) (definitions : Definitions) (linked nested : Bool) (tokens behind : List Token)
    (inlines : List Inline) : Prop :=
  ∃ raws, Collects inTable definitions linked nested tokens behind raws ∧ Tells raws inlines

namespace Reads

theorem nil (tokens : List Token) : Reads inTable definitions linked nested tokens tokens [] :=
  ⟨[], .nil tokens, .nil⟩

theorem join_map_ofList (texts : List (List Char)) :
    String.join (texts.map String.ofList) = String.ofList texts.flatten := by
  rw [String.join_eq, List.map_map]
  simp [Function.comp_def]

variable {pieces : List (List Char)} {found : List Token} {text : String} {size : Nat} {escaped : Bool}

theorem texts (hne : pieces ≠ []) (h : Reads inTable definitions linked nested tokens rest inlines)
    (hends : opensText inlines = false) :
    Reads inTable definitions linked nested (pieces.map Token.text ++ tokens) rest
      (.text (String.ofList pieces.flatten) :: inlines) := by
  obtain ⟨raws, hcollect, htell⟩ := h
  have hstrings : pieces.map String.ofList ≠ [] := by simpa using hne
  have htexts := htell.texts hstrings hends
  rw [join_map_ofList] at htexts
  exact ⟨_, (Collects.texts pieces tokens).append hcollect, htexts⟩

section

variable (hsize : size ≠ 0) (hspan : splitAtTicks? size tokens = some (found, escaped, behind))
variable (htext : codeText inTable (rawOf found ++ if escaped then ['\\'] else []) = text.toList)
include hsize hspan htext

theorem code (h : Reads inTable definitions linked nested behind rest inlines)
    (hplain : ∀ next later, inlines = .text next :: later → Attr.splitGroup? next = none) :
    Reads inTable definitions linked nested (.ticks size false :: tokens) rest (.code Attr.empty text :: inlines) := by
  obtain ⟨raws, hcollect, htell⟩ := h
  have hcode := (Collects.code hsize hspan).append hcollect
  rw [htext, String.ofList_toList] at hcode
  exact ⟨_, hcode, htell.code text hplain⟩

/-- A code span and the texts of its group. -/
theorem group {attr : Attr} {after : List Token} (hne : pieces ≠ []) (hbehind : behind = pieces.map Token.text ++ after)
    (hgroup : ∀ next, Attr.splitGroup? (String.ofList pieces.flatten ++ next) = some (attr, next))
    (h : Reads inTable definitions linked nested after rest inlines)
    (hnext : ∀ next later, inlines = .text next :: later → next ≠ "") :
    Reads inTable definitions linked nested (.ticks size false :: tokens) rest (.code attr text :: inlines) := by
  obtain ⟨raws, hcollect, htell⟩ := h
  have hall := (Collects.texts pieces after).append hcollect
  rw [← hbehind] at hall
  have hcode := (Collects.code hsize hspan).append hall
  rw [htext, String.ofList_toList] at hcode
  rw [← join_map_ofList] at hgroup
  exact ⟨_, hcode, htell.group text (by simpa using hne) hgroup hnext⟩

end

theorem lineBreak (hard : Bool) (raw margin : List Char)
    (h : Reads inTable definitions linked nested tokens rest inlines) :
    Reads inTable definitions linked nested (.lineBreak hard raw margin :: tokens) rest
      ((if hard then .hardBreak else .softBreak) :: inlines) := by
  obtain ⟨raws, hcollect, htell⟩ := h
  refine ⟨_, (Collects.lineBreak hard raw margin tokens).append hcollect, ?_⟩
  cases hard with
  | false => exact htell.other rfl (by simp) rfl rfl
  | true => exact htell.other rfl (by simp) rfl rfl

theorem marked {inline : Inline} {mark : Char} {content : List Inline}
    (is_marked : marked? inline = some (mark, size, content)) {opens closes : Bool}
    (hcloses : nested = true → closes = false)
    (h : Reads inTable definitions linked true tokens (.run mark size opens true :: behind) content)
    (hrest : Reads inTable definitions linked nested behind rest inlines) :
    Reads inTable definitions linked nested (.run mark size true closes :: tokens) rest (inline :: inlines) := by
  obtain ⟨inside, hinside, htold⟩ := h
  obtain ⟨raws, hcollect, htell⟩ := hrest
  obtain ⟨raw, hwrap, hno_text, hno_code, hraw, hattach⟩ := exists_wrap is_marked htold
  have hmarked := hinside.marked (areMarks_of_marked is_marked) hcloses
  rw [hwrap] at hmarked
  exact ⟨_, hmarked.append hcollect, htell.other hno_text hno_code hraw hattach⟩

theorem link {image : Bool} (hlinked : image = false → linked = false) {free : Bool} {target : Target}
    {inside : List Token} {cs : List Char} {content : List Inline}
    (h : Reads inTable definitions (linked || !image) false tokens (.linkClose free :: inside) content)
    (htarget : Target.readInline? inTable (rawOf inside) = some (target, cs))
    (hbehind : (splitTokens ((rawOf inside).length - cs.length) inside).2 = behind)
    (hrest : Reads inTable definitions linked nested behind rest inlines) :
    Reads inTable definitions linked nested ((if image then .imageOpen else .linkOpen) :: tokens) rest
      ((if image then .image target.destination target.title content
        else .link target.destination target.title content) :: inlines) := by
  obtain ⟨inner, hinner, htold, hattach⟩ := h
  obtain ⟨raws, hcollect, htell⟩ := hrest
  have hlink : Collects inTable definitions linked nested ((if image then .imageOpen else .linkOpen) :: tokens) _ _ :=
    hinner.link hlinked htarget
  rw [hbehind] at hlink
  refine ⟨_, hlink.append hcollect, ?_⟩
  cases image with
  | true => exact htell.other rfl (by simp) htold (congrArg (Inline.image _ _) hattach)
  | false => exact htell.other rfl (by simp) htold (congrArg (Inline.link _ _) hattach)

/-- What all tokens are read as tells the inlines. -/
theorem phrase (h : Reads inTable definitions false false tokens [] inlines) :
    Tells (Markdown.phrase inTable definitions tokens) inlines := by
  obtain ⟨raws, hcollect, htell⟩ := h
  rwa [hcollect.phrase]

end Reads

end Literate.Markdown
