import Literate.Markdown.Groups
import Literate.Proofs.Document.AttrGrammar
import Mathlib

/-!
# Groups and the code that takes them

What becomes of inlines when groups are attached can be said span by span: a span of code takes the group
at the front of the text that directly follows it, if there is one, and nothing else changes but that
neighbouring texts are one (`TextsJoined`). So nothing is lost: where the source of every group that was
taken is put back behind its span (`restore`), the inlines are what they were.

`attachGroups` makes two passes, and each is looked at alone. After the first no two texts are neighbours
(`TextsJoined.apart`), and this is what the second needs: the text behind a span is then one inline, and
what follows that inline is no text.

Main results:

* `textsJoined_joinTexts`: the first pass joins texts and does nothing else.
* `codeAttrs_moveGroups`, `exists_restore_moveGroups`: what the second pass gives to code, and that it can
  be undone.
* `attachGroups_takes`: both passes together.
-/

namespace Literate

namespace Attr

/-- What follows the items of a group is the end of the text that they were read from. -/
theorem ItemsSpelled.suffix {items : List Item} {cs rest : List Char}
    (h : ItemsSpelled items cs rest) : rest <:+ cs := by
  induction h with
  | @close gap rest => exact ⟨gap ++ ['\x7d'], by simp⟩
  | @item gap text after rest item items _ _ _ ih =>
    rw [← List.append_assoc]
    exact ih.trans (List.suffix_append ..)

/-- A group has a source: the text up to what follows it. -/
theorem exists_source_of_splitGroup? {text rest : String} {group : Attr}
    (h : splitGroup? text = some (group, rest)) : ∃ source, text = source ++ rest := by
  unfold splitGroup? at h
  obtain ⟨⟨attr, cs⟩, hread, hpair⟩ := Option.map_eq_some_iff.mp h
  obtain ⟨rfl, rfl⟩ := Prod.mk.inj hpair
  obtain ⟨items, ⟨body, hbody, hitems⟩, -⟩ := readGroup?_eq_some_iff.mp hread
  have hsuffix : cs <:+ text.toList := by
    rw [hbody]
    exact hitems.suffix.trans (List.suffix_cons ..)
  obtain ⟨source, hsource⟩ := hsuffix
  refine ⟨String.ofList source, ?_⟩
  rw [← String.ofList_append, hsource, String.ofList_toList]

end Attr

namespace Markdown

variable {inline : Inline} {inlines joined : List Inline} {attr : Attr} {text : String}

-- ---------------------------------------------------------------------------
-- Joined texts
-- ---------------------------------------------------------------------------

def Inline.isText : Inline → Bool
  | .text _ => true
  | _ => false

/-- Whether inlines begin with text. -/
def opensText (inlines : List Inline) : Bool :=
  inlines.head?.any Inline.isText

/-- Inlines, and the same inlines with all neighbouring texts as one. -/
inductive TextsJoined : List Inline → List Inline → Prop where
  | nil : TextsJoined [] []
  | texts {pieces : List String} {inlines joined : List Inline} (ne_nil : pieces ≠ [])
      (ends : opensText inlines = false) (later : TextsJoined inlines joined) :
      TextsJoined (pieces.map .text ++ inlines) (.text (String.join pieces) :: joined)
  | other {inline : Inline} {inlines joined : List Inline} (no_text : Inline.isText inline = false)
      (later : TextsJoined inlines joined) : TextsJoined (inline :: inlines) (inline :: joined)

/-- No two texts are neighbours. -/
def TextsApart (inlines : List Inline) : Prop :=
  inlines.IsChain fun first second => ¬(Inline.isText first = true ∧ Inline.isText second = true)

theorem opensText_eq_false_of_ne (h : ∀ text later, inlines ≠ .text text :: later) :
    opensText inlines = false := by
  cases inlines with
  | nil => rfl
  | cons inline later =>
    cases inline with
    | text text => exact absurd rfl (h text later)
    | _ => rfl

theorem textsApart_cons :
    TextsApart (inline :: inlines) ↔
      (Inline.isText inline = true → opensText inlines = false) ∧ TextsApart inlines := by
  unfold TextsApart opensText
  cases inlines with
  | nil => simp
  | cons next inlines => simp [List.isChain_cons_cons]

theorem TextsJoined.opensText_eq (h : TextsJoined inlines joined) :
    opensText joined = opensText inlines := by
  cases h with
  | nil => rfl
  | @texts pieces inlines joined ne_nil =>
    cases pieces with
    | nil => exact absurd rfl ne_nil
    | cons piece pieces => rfl
  | other => rfl

theorem TextsJoined.apart (h : TextsJoined inlines joined) : TextsApart joined := by
  induction h with
  | nil => exact .nil
  | texts _ ends later ih =>
    refine textsApart_cons.mpr ⟨fun _ => ?_, ih⟩
    rw [later.opensText_eq, ends]
  | other no_text _ ih =>
    refine textsApart_cons.mpr ⟨fun htext => ?_, ih⟩
    rw [no_text] at htext
    cases htext

/-- Joining goes from the last inline to the first: a text in front stands alone, or it begins the run that
was joined before. -/
theorem textsJoined_joinTexts (inlines : List Inline) : TextsJoined inlines (joinTexts inlines) := by
  induction inlines with
  | nil => exact .nil
  | cons inline inlines ih =>
    cases inline with
    | text text =>
      rw [joinTexts]
      split
      · rename_i next rest hjoined
        rw [hjoined] at ih
        cases ih with
        | @texts pieces inlines _ _ ends later =>
          have hrun := TextsJoined.texts (List.cons_ne_nil text pieces) ends later
          rwa [String.join_cons] at hrun
        | other no_text => cases no_text
      · rename_i hne
        have hends : opensText inlines = false := by
          rw [← ih.opensText_eq]
          exact opensText_eq_false_of_ne hne
        have hrun := TextsJoined.texts (List.cons_ne_nil text []) hends ih
        simpa using hrun
    | _ => exact .other rfl ih

-- ---------------------------------------------------------------------------
-- Spans of code and what follows them
-- ---------------------------------------------------------------------------

/-- An inline but for the attributes of code. -/
def Inline.bare : Inline → Inline
  | .code _ text => .code Attr.empty text
  | inline => inline

/-- The inlines that are no text, in their order, code without its attributes. -/
def marks (inlines : List Inline) : List Inline :=
  (inlines.filter fun inline => !Inline.isText inline).map Inline.bare

/-- The attributes of the spans of code, in their order. -/
def codeAttrs : List Inline → List Attr
  | [] => []
  | .code attr _ :: inlines => attr :: codeAttrs inlines
  | _ :: inlines => codeAttrs inlines

/-- The text that inlines begin with: all of it, up to the first inline that is no text. -/
def leadingText : List Inline → String
  | .text text :: inlines => text ++ leadingText inlines
  | _ => ""

/-- The texts that directly follow the spans of code, in their order. -/
def textsBehind : List Inline → List String
  | [] => []
  | .code _ _ :: inlines => leadingText inlines :: textsBehind inlines
  | _ :: inlines => textsBehind inlines

/-- Whether no code has attributes, as it is when it is read. -/
def AreBare (inlines : List Inline) : Prop :=
  ∀ attr text, .code attr text ∈ inlines → attr = Attr.empty

theorem AreBare.later (h : AreBare (inline :: inlines)) : AreBare inlines :=
  fun attr text hmem => h attr text (List.mem_cons_of_mem _ hmem)

theorem AreBare.attr_eq (h : AreBare (.code attr text :: inlines)) : attr = Attr.empty :=
  h attr text (List.mem_cons_self ..)

theorem marks_text (text : String) (inlines : List Inline) :
    marks (.text text :: inlines) = marks inlines := rfl

theorem marks_code (attr : Attr) (text : String) (inlines : List Inline) :
    marks (.code attr text :: inlines) = .code Attr.empty text :: marks inlines := rfl

theorem marks_cons (no_text : Inline.isText inline = false) :
    marks (inline :: inlines) = Inline.bare inline :: marks inlines := by
  unfold marks
  rw [List.filter_cons_of_pos (by simp [no_text]), List.map_cons]

theorem leadingText_of_not_opensText (h : opensText inlines = false) : leadingText inlines = "" := by
  cases inlines with
  | nil => rfl
  | cons inline inlines =>
    cases inline with
    | text text => cases h
    | _ => rfl

theorem textsBehind_text (text : String) (inlines : List Inline) :
    textsBehind (.text text :: inlines) = textsBehind inlines := rfl

theorem textsBehind_code (attr : Attr) (text : String) (inlines : List Inline) :
    textsBehind (.code attr text :: inlines) = leadingText inlines :: textsBehind inlines := rfl

/-- What directly follows code is the next inline, where that is a text without neighbours. -/
theorem textsBehind_code_text {next : String} (h : TextsApart (.text next :: inlines)) (attr : Attr)
    (text : String) :
    textsBehind (.code attr text :: .text next :: inlines) = next :: textsBehind inlines := by
  obtain ⟨hends, -⟩ := textsApart_cons.mp h
  rw [textsBehind_code, leadingText, leadingText_of_not_opensText (hends rfl), String.append_empty,
    textsBehind_text]

theorem textsBehind_code_other (h : opensText inlines = false) (attr : Attr) (text : String) :
    textsBehind (.code attr text :: inlines) = "" :: textsBehind inlines := by
  rw [textsBehind_code, leadingText_of_not_opensText h]

/-- What a run of texts says: the text in front, and nothing of code or other inlines. -/
theorem of_texts (pieces : List String) (inlines : List Inline) :
    marks (pieces.map .text ++ inlines) = marks inlines ∧
      leadingText (pieces.map .text ++ inlines) = String.join pieces ++ leadingText inlines ∧
      textsBehind (pieces.map .text ++ inlines) = textsBehind inlines := by
  induction pieces with
  | nil => simp
  | cons piece pieces ih =>
    obtain ⟨hmarks, hleading, hbehind⟩ := ih
    rw [List.map_cons, List.cons_append]
    refine ⟨hmarks, ?_, hbehind⟩
    rw [leadingText, hleading, String.join_cons, String.append_assoc]

/-- Joining texts changes neither the other inlines nor the text that follows each of them. -/
theorem TextsJoined.keeps (h : TextsJoined inlines joined) :
    marks joined = marks inlines ∧ leadingText joined = leadingText inlines ∧
      textsBehind joined = textsBehind inlines := by
  induction h with
  | nil => exact ⟨rfl, rfl, rfl⟩
  | @texts pieces inlines joined ne_nil ends later ih =>
    obtain ⟨hmarks, hleading, hbehind⟩ := ih
    obtain ⟨hmarksRun, hleadingRun, hbehindRun⟩ := of_texts pieces inlines
    rw [hmarksRun, hleadingRun, hbehindRun]
    refine ⟨hmarks, ?_, hbehind⟩
    rw [leadingText, hleading]
  | @other inline inlines joined no_text later ih =>
    obtain ⟨hmarks, hleading, hbehind⟩ := ih
    rw [marks_cons no_text, marks_cons no_text, hmarks]
    refine ⟨rfl, ?_, ?_⟩
    · cases inline with
      | text text => cases no_text
      | _ => rfl
    · cases inline with
      | code attr text => rw [textsBehind_code, textsBehind_code, hleading, hbehind]
      | _ => exact hbehind

theorem TextsJoined.areBare (h : TextsJoined inlines joined) (hbare : AreBare inlines) :
    AreBare joined := by
  induction h with
  | nil => exact hbare
  | @texts pieces inlines joined ne_nil ends later ih =>
    intro attr text hmem
    have hlater : .code attr text ∈ joined := by simpa using hmem
    refine ih (fun attr text hcode => hbare attr text ?_) attr text hlater
    exact List.mem_append_right _ hcode
  | @other inline inlines joined no_text later ih =>
    intro attr text hmem
    rcases List.mem_cons.mp hmem with hcode | hlater
    · exact hbare attr text (hcode ▸ List.mem_cons_self ..)
    · exact ih hbare.later attr text hlater

-- ---------------------------------------------------------------------------
-- Moving groups
-- ---------------------------------------------------------------------------

/-- The attributes that a span of code takes from the text behind it: those of the group that the text
begins with, if it begins with one. -/
def groupAttr (behind : String) : Attr :=
  ((Attr.splitGroup? behind).map Prod.fst).getD Attr.empty

/-- What a span of code takes from the text behind it: the source of the group that the text begins with,
or nothing if it begins with none. -/
def IsTaken (behind : String) (taken : Option String) : Prop :=
  match Attr.splitGroup? behind with
  | some (_, rest) => ∃ source, taken = some source ∧ behind = source ++ rest
  | none => taken = none

/-- Puts a source in front of inlines, in the text that they begin with or as a text of its own. -/
def putBack (source : String) : List Inline → List Inline
  | .text text :: inlines => .text (source ++ text) :: inlines
  | inlines => .text source :: inlines

/-- The inlines with the sources of groups put back behind the spans of code that have taken them. -/
def restore : List (Option String) → List Inline → List Inline
  | none :: taken, .code attr text :: inlines => .code attr text :: restore taken inlines
  | some source :: taken, .code _ text :: inlines =>
    .code Attr.empty text :: putBack source (restore taken inlines)
  | taken, inline :: inlines => inline :: restore taken inlines
  | _, [] => []

theorem marks_moveGroups (inlines : List Inline) : marks (moveGroups inlines) = marks inlines := by
  fun_induction moveGroups inlines with
  | case1 => rfl
  | case2 attr text next inlines group rest hsplit ih =>
    rw [marks_code, marks_text, ← ih]
    split
    · rfl
    · rfl
  | case3 attr text next inlines hsplit ih =>
    rw [marks_code, marks_code, marks_text, marks_text, ih]
  | case4 inline inlines hne ih =>
    cases inline with
    | text text => rw [marks_text, marks_text, ih]
    | _ => rw [marks_cons rfl, marks_cons rfl, ih]

theorem opensText_moveGroups (inlines : List Inline) :
    opensText (moveGroups inlines) = opensText inlines := by
  fun_cases moveGroups inlines <;> rfl

/-- What is left of a text has the neighbours that the text had. -/
theorem textsApart_moveGroups (h : TextsApart inlines) : TextsApart (moveGroups inlines) := by
  fun_induction moveGroups inlines with
  | case1 => exact h
  | case2 attr text next inlines group rest hsplit ih =>
    obtain ⟨-, hnext⟩ := textsApart_cons.mp h
    obtain ⟨hends, hlater⟩ := textsApart_cons.mp hnext
    have hbehind := opensText_moveGroups inlines
    rw [hends rfl] at hbehind
    refine textsApart_cons.mpr ⟨nofun, ?_⟩
    split
    · exact ih hlater
    · exact textsApart_cons.mpr ⟨fun _ => hbehind, ih hlater⟩
  | case3 attr text next inlines hsplit ih =>
    obtain ⟨-, hnext⟩ := textsApart_cons.mp h
    obtain ⟨hends, hlater⟩ := textsApart_cons.mp hnext
    refine textsApart_cons.mpr ⟨nofun, textsApart_cons.mpr ⟨fun htext => ?_, ih hlater⟩⟩
    rw [opensText_moveGroups, hends htext]
  | case4 inline inlines hne ih =>
    obtain ⟨hends, hlater⟩ := textsApart_cons.mp h
    refine textsApart_cons.mpr ⟨fun htext => ?_, ih hlater⟩
    rw [opensText_moveGroups, hends htext]

/-- A span of code has what the group behind it says, and no attributes if no group follows it. -/
theorem codeAttrs_moveGroups (h : TextsApart inlines) (hbare : AreBare inlines) :
    codeAttrs (moveGroups inlines) = (textsBehind inlines).map groupAttr := by
  fun_induction moveGroups inlines with
  | case1 => rfl
  | case2 attr text next inlines group rest hsplit ih =>
    obtain ⟨-, hnext⟩ := textsApart_cons.mp h
    have hlater := ih (textsApart_cons.mp hnext).2 hbare.later.later
    have hgroup : groupAttr next = group := by
      unfold groupAttr
      rw [hsplit]
      rfl
    rw [textsBehind_code_text hnext, List.map_cons, hgroup, ← hlater]
    split
    · rfl
    · rfl
  | case3 attr text next inlines hsplit ih =>
    obtain ⟨-, hnext⟩ := textsApart_cons.mp h
    have hlater := ih (textsApart_cons.mp hnext).2 hbare.later.later
    have hgroup : groupAttr next = attr := by
      unfold groupAttr
      rw [hsplit, hbare.attr_eq]
      rfl
    rw [textsBehind_code_text hnext, List.map_cons, hgroup, ← hlater]
    rfl
  | case4 inline inlines hne ih =>
    have hlater := ih (textsApart_cons.mp h).2 hbare.later
    cases inline with
    | code attr text =>
      have hends := opensText_eq_false_of_ne fun next later => hne attr text next later rfl
      have hgroup : groupAttr "" = attr := hbare.attr_eq.symm
      rw [codeAttrs, textsBehind_code_other hends, List.map_cons, hgroup, hlater]
    | _ => exact hlater

theorem putBack_of_not_opensText (h : opensText inlines = false) (source : String) :
    putBack source inlines = .text source :: inlines := by
  unfold putBack
  split
  · cases h
  · rfl

theorem restore_text (taken : List (Option String)) (text : String) (inlines : List Inline) :
    restore taken (.text text :: inlines) = .text text :: restore taken inlines := by
  rw [restore]
  all_goals simp

/-- What has been taken can be put back. -/
theorem exists_restore_moveGroups (h : TextsApart inlines) (hbare : AreBare inlines) :
    ∃ taken, List.Forall₂ IsTaken (textsBehind inlines) taken ∧
      restore taken (moveGroups inlines) = inlines := by
  fun_induction moveGroups inlines with
  | case1 => exact ⟨[], .nil, rfl⟩
  | case2 attr text next inlines group rest hsplit ih =>
    -- The text behind the code began with a group, which is put back in front of what is left.
    obtain ⟨-, hnext⟩ := textsApart_cons.mp h
    obtain ⟨hends, hlater⟩ := textsApart_cons.mp hnext
    obtain ⟨taken, htaken, hrestore⟩ := ih hlater hbare.later.later
    obtain ⟨source, hsource⟩ := Attr.exists_source_of_splitGroup? hsplit
    have hgroup : IsTaken next (some source) := by
      unfold IsTaken
      rw [hsplit]
      exact ⟨source, rfl, hsource⟩
    refine ⟨some source :: taken, ?_, ?_⟩
    · rw [textsBehind_code_text hnext]
      exact .cons hgroup htaken
    · rw [List.cons_append, restore, hbare.attr_eq, hsource]
      split
      · -- The group was the whole text.
        rename_i hempty
        rw [List.nil_append, hrestore, putBack_of_not_opensText (hends rfl),
          String.isEmpty_iff.mp hempty, String.append_empty]
      · rw [List.singleton_append, restore_text, hrestore, putBack]
  | case3 attr text next inlines hsplit ih =>
    obtain ⟨-, hnext⟩ := textsApart_cons.mp h
    obtain ⟨taken, htaken, hrestore⟩ := ih (textsApart_cons.mp hnext).2 hbare.later.later
    have hnone : IsTaken next none := by
      unfold IsTaken
      rw [hsplit]
    refine ⟨none :: taken, ?_, ?_⟩
    · rw [textsBehind_code_text hnext]
      exact .cons hnone htaken
    · rw [restore, restore_text, hrestore]
  | case4 inline inlines hne ih =>
    obtain ⟨taken, htaken, hrestore⟩ := ih (textsApart_cons.mp h).2 hbare.later
    cases inline with
    | code attr text =>
      -- The text behind the code, if there is one, is no group, and nothing was taken from it.
      have hends := opensText_eq_false_of_ne fun next later => hne attr text next later rfl
      refine ⟨none :: taken, ?_, ?_⟩
      · rw [textsBehind_code_other hends]
        exact .cons rfl htaken
      · rw [restore, hrestore]
    | _ =>
      refine ⟨taken, htaken, ?_⟩
      rw [restore, hrestore]
      all_goals simp

/-- **Code takes the group that directly follows it, and nothing is lost.** All inlines but texts stay in
their order, code with its text and all others as they are. No two texts are left as neighbours. A span of
code has the attributes of the group that the text behind it begins with, all neighbouring texts taken as
one, and no attributes if that begins with no group. And where the source of each group that was taken is
put back in front of what follows its span, the inlines are what they were, with neighbouring texts as
one. -/
theorem attachGroups_takes (hbare : AreBare inlines) :
    marks (attachGroups inlines) = marks inlines ∧
      TextsApart (attachGroups inlines) ∧
      codeAttrs (attachGroups inlines) = (textsBehind inlines).map groupAttr ∧
      ∃ joined taken, TextsJoined inlines joined ∧ List.Forall₂ IsTaken (textsBehind inlines) taken ∧
        restore taken (attachGroups inlines) = joined := by
  have hjoined := textsJoined_joinTexts inlines
  obtain ⟨hmarks, -, hbehind⟩ := hjoined.keeps
  have hbareJoined := hjoined.areBare hbare
  obtain ⟨taken, htaken, hrestore⟩ := exists_restore_moveGroups hjoined.apart hbareJoined
  rw [hbehind] at htaken
  unfold attachGroups
  rw [marks_moveGroups, codeAttrs_moveGroups hjoined.apart hbareJoined, hbehind]
  exact ⟨hmarks, textsApart_moveGroups hjoined.apart, rfl, _, taken, hjoined, htaken, hrestore⟩

/-- A group in two pieces before more text, a group that is all of the text, a group behind a blank, two
groups one after the other, and code at the end. -/
theorem attachGroups_takes_pieces :
    let inlines : List Inline :=
      [.text "a", .code .empty "x", .text "\x7b.p", .text "y\x7d b", .code .empty "y", .text "\x7b#i\x7d",
        .emphasis [], .code .empty "z", .text " \x7b.n\x7d", .softBreak, .code .empty "v",
        .text "\x7b.k\x7d\x7b.l\x7d", .code .empty "w"]
    AreBare inlines ∧
      marks (attachGroups inlines) = [.code .empty "x", .code .empty "y", .emphasis [],
        .code .empty "z", .softBreak, .code .empty "v", .code .empty "w"] ∧
      codeAttrs (attachGroups inlines) =
        [.ofClasses ["py"], ⟨"i", [], []⟩, .empty, .ofClasses ["k"], .empty] ∧
      ∃ joined taken, TextsJoined inlines joined ∧ List.Forall₂ IsTaken (textsBehind inlines) taken ∧
        restore taken (attachGroups inlines) = joined := by
  intro inlines
  have hbare : AreBare inlines := by
    intro attr text hmem
    simp [inlines] at hmem
    tauto
  obtain ⟨hmarks, -, hattrs, hrestore⟩ := attachGroups_takes hbare
  refine ⟨hbare, hmarks, ?_, hrestore⟩
  rw [hattrs]
  cbv

end Markdown

end Literate
