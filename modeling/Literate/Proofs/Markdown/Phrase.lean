import Literate.Proofs.Document.AttrGrammar
import Literate.Proofs.Markdown.FirstPass
import Literate.Proofs.Markdown.LinkTarget

/-!
# Phrases

Nothing is escaped where inlines are written, so whether they are read back depends on the characters that they are
written with. `Phrase` are inlines of which this can be said from those and the characters beside them: text whose
marks mean nothing where they stand, code with and without attributes, links and images, and any of these in emphasis,
strong or struck through, as long as the marks around them can do what they are there for.

A phrase is written inside a line and inside a cell of a table (`Phrase.inline`), and what is no text begins with a
mark (`Phrase.head_isMark`).
-/

namespace Literate.Markdown

-- ---------------------------------------------------------------------------
-- Inlines in their places
-- ---------------------------------------------------------------------------

/-- The text of inlines. -/
def spelling (inlines : List Inline) : List Char :=
  (renderInlines inlines).toList

/-- Whether marks can be set around a text, between two characters: in front they open, behind they close, and on
neither side another mark of their kind makes them longer. Inside of other marks the ones in front may not close any. -/
def canSurround (nested : Bool) (mark : Char) (size : Nat) (before after : Option Char) (inside : List Char) : Bool :=
  canOpenRun mark size before inside.head? && canCloseRun mark size inside.getLast? after &&
    inside.head? ≠ some mark && after ≠ some mark && !(nested && canCloseRun mark size before inside.head?)

/-- Code and its attributes, in front of a character that they are read back before. -/
structure IsCode (attr : Attr) (text : String) (after : Option Char) : Prop where
  ne_empty : text ≠ ""
  inline : ∀ c ∈ text.toList, isLineEnd c = false ∧ c ≠ '|'
  no_spaces : ¬ HasOuterSpaces text.toList
  /-- A backtick would make the fence longer, and a brace might open a group. -/
  alone : attr.isEmpty = true → after ≠ some '\x60' ∧ after ≠ some '\x7b'
  group : attr.isEmpty = false → attr.Readable ∧ isIdle (some '\x60') after attr.show.toList = true

/-- Inlines that are read back between two characters, inside of a link if they are `linked` and of marks if they are
`nested`. -/
inductive Phrase : (linked nested : Bool) → (before after : Option Char) → List Inline → Prop where
  | nil (linked nested : Bool) (before after : Option Char) : Phrase linked nested before after []
  | text {linked nested : Bool} {before after : Option Char} {text : String} {inlines : List Inline}
      (ne_empty : text ≠ "") (idle : isIdle before ((spelling inlines).head?.or after) text.toList = true)
      (ends : opensText inlines = false) (rest : Phrase linked nested text.toList.getLast? after inlines) :
      Phrase linked nested before after (.text text :: inlines)
  | marked {linked nested : Bool} {before after : Option Char} {inline : Inline} {mark : Char} {size : Nat}
      {content inlines : List Inline} (is_marked : marked? inline = some (mark, size, content))
      (fits : canSurround nested mark size before ((spelling inlines).head?.or after) (spelling content) = true)
      (inside : Phrase linked true (some mark) (some mark) content)
      (rest : Phrase linked nested (some mark) after inlines) : Phrase linked nested before after (inline :: inlines)
  | code {linked nested : Bool} {before after : Option Char} {attr : Attr} {text : String} {inlines : List Inline}
      (is_code : IsCode attr text ((spelling inlines).head?.or after))
      (rest : Phrase linked nested (renderCode attr text).toList.getLast? after inlines) :
      Phrase linked nested before after (.code attr text :: inlines)
  | link {nested : Bool} {before after : Option Char} {dest title : String} {content inlines : List Inline}
      (target : Target.IsWritten dest title) (inside : Phrase true false (some '[') (some ']') content)
      (rest : Phrase false nested (some ')') after inlines) :
      Phrase false nested before after (.link dest title content :: inlines)
  | image {linked nested : Bool} {before after : Option Char} {dest title : String} {content inlines : List Inline}
      (target : Target.IsWritten dest title) (inside : Phrase linked false (some '[') (some ']') content)
      (rest : Phrase linked nested (some ')') after inlines) :
      Phrase linked nested before after (.image dest title content :: inlines)

-- ---------------------------------------------------------------------------
-- Deciding
-- ---------------------------------------------------------------------------

/-- Whether code is read back before a character. -/
def isCode (attr : Attr) (text : String) (after : Option Char) : Bool :=
  text ≠ "" && text.toList.all (fun c => !isLineEnd c && c ≠ '|') && !decide (HasOuterSpaces text.toList) &&
    if attr.isEmpty then after ≠ some '\x60' && after ≠ some '\x7b'
    else attr.isReadable && isIdle (some '\x60') after attr.show.toList

/-- Whether inlines are a phrase. -/
def isPhrase (linked nested : Bool) (before after : Option Char) : List Inline → Bool
  | [] => true
  | .text text :: inlines =>
    text ≠ "" && isIdle before ((spelling inlines).head?.or after) text.toList && !opensText inlines &&
      isPhrase linked nested text.toList.getLast? after inlines
  | .code attr text :: inlines =>
    isCode attr text ((spelling inlines).head?.or after) &&
      isPhrase linked nested (renderCode attr text).toList.getLast? after inlines
  | .emphasis content :: inlines =>
    canSurround nested '*' 1 before ((spelling inlines).head?.or after) (spelling content) &&
      isPhrase linked true (some '*') (some '*') content && isPhrase linked nested (some '*') after inlines
  | .strong content :: inlines =>
    canSurround nested '*' 2 before ((spelling inlines).head?.or after) (spelling content) &&
      isPhrase linked true (some '*') (some '*') content && isPhrase linked nested (some '*') after inlines
  | .strikethrough content :: inlines =>
    canSurround nested '~' 2 before ((spelling inlines).head?.or after) (spelling content) &&
      isPhrase linked true (some '~') (some '~') content && isPhrase linked nested (some '~') after inlines
  | .link dest title content :: inlines =>
    !linked && Target.isWritten dest title && isPhrase true false (some '[') (some ']') content &&
      isPhrase linked nested (some ')') after inlines
  | .image dest title content :: inlines =>
    Target.isWritten dest title && isPhrase linked false (some '[') (some ']') content &&
      isPhrase linked nested (some ')') after inlines
  | _ => false

theorem IsCode.of_isCode {attr : Attr} {text : String} {after : Option Char} (h : isCode attr text after = true) :
    IsCode attr text after := by
  simp only [isCode, Bool.and_eq_true, decide_eq_true_eq, List.all_eq_true, Bool.not_eq_true',
    decide_eq_false_iff_not] at h
  obtain ⟨⟨⟨hne, hinline⟩, hspaces⟩, hbehind⟩ := h
  refine ⟨hne, hinline, hspaces, fun hempty => ?_, fun hempty => ?_⟩
  · simpa [hempty] using hbehind
  · simpa [hempty, Attr.isReadable_iff] using hbehind

theorem Phrase.of_isPhrase {linked nested : Bool} {before after : Option Char} {inlines : List Inline}
    (h : isPhrase linked nested before after inlines = true) : Phrase linked nested before after inlines := by
  fun_induction isPhrase linked nested before after inlines with
  | case1 => exact .nil ..
  | case2 linked nested before after text inlines ih =>
    simp only [Bool.and_eq_true, decide_eq_true_eq, Bool.not_eq_true'] at h
    exact .text h.1.1.1 h.1.1.2 h.1.2 (ih h.2)
  | case3 linked nested before after attr text inlines ih =>
    rw [Bool.and_eq_true] at h
    exact .code (.of_isCode h.1) (ih h.2)
  | case4 linked nested before after content inlines ih ih_rest =>
    rw [Bool.and_eq_true, Bool.and_eq_true] at h
    exact .marked rfl h.1.1 (ih h.1.2) (ih_rest h.2)
  | case5 linked nested before after content inlines ih ih_rest =>
    rw [Bool.and_eq_true, Bool.and_eq_true] at h
    exact .marked rfl h.1.1 (ih h.1.2) (ih_rest h.2)
  | case6 linked nested before after content inlines ih ih_rest =>
    rw [Bool.and_eq_true, Bool.and_eq_true] at h
    exact .marked rfl h.1.1 (ih h.1.2) (ih_rest h.2)
  | case7 linked nested before after dest title content inlines ih ih_rest =>
    simp only [Bool.and_eq_true, Bool.not_eq_true'] at h
    obtain ⟨⟨⟨rfl, htarget⟩, hinside⟩, hrest⟩ := h
    exact .link (.of_isWritten htarget) (ih hinside) (ih_rest hrest)
  | case8 linked nested before after dest title content inlines ih ih_rest =>
    rw [Bool.and_eq_true, Bool.and_eq_true] at h
    exact .image (.of_isWritten h.1.1) (ih h.1.2) (ih_rest h.2)
  | case9 => cases h

-- ---------------------------------------------------------------------------
-- How inlines are written
-- ---------------------------------------------------------------------------

theorem spelling_cons (inline : Inline) (inlines : List Inline) :
    spelling (inline :: inlines) = inline.render.toList ++ spelling inlines := by
  simp [spelling, renderInlines]

theorem spelling_append (first second : List Inline) :
    spelling (first ++ second) = spelling first ++ spelling second := by
  induction first with
  | nil => rfl
  | cons inline first ih => rw [List.cons_append, spelling_cons, ih, spelling_cons, List.append_assoc]

theorem render_marked {inline : Inline} {mark : Char} {size : Nat} {content : List Inline}
    (h : marked? inline = some (mark, size, content)) :
    inline.render.toList = List.replicate size mark ++ (spelling content ++ List.replicate size mark) := by
  unfold marked? at h
  split at h <;> cases h
  all_goals simp [Inline.render, spelling, List.replicate]

/-- Attributes stand behind the span that they belong to. -/
theorem render_code (attr : Attr) (text : String) :
    (renderCode attr text).toList = (renderCode .empty text).toList ++ attr.showNonempty.toList := by
  have hshow : Attr.showNonempty .empty = "" := rfl
  simp [renderCode, hshow]

/-- What stands between the opening parenthesis of a target and the closing one. -/
def targetInside (dest title : String) : List Char :=
  '(' :: (dest.toList ++ if title = "" then [] else ' ' :: '"' :: (title.toList ++ ['"']))

theorem toList_renderTarget (dest title : String) :
    (renderTarget dest title).toList = targetInside dest title ++ [')'] := by
  by_cases htitle : title = "" <;> simp [renderTarget, targetInside, htitle]

theorem render_link (dest title : String) (content : List Inline) :
    (Inline.link dest title content).render.toList =
      '[' :: (spelling content ++ ']' :: (targetInside dest title ++ [')'])) := by
  rw [Inline.render, ← toList_renderTarget]
  simp [spelling]

theorem render_image (dest title : String) (content : List Inline) :
    (Inline.image dest title content).render.toList =
      '!' :: '[' :: (spelling content ++ ']' :: (targetInside dest title ++ [')'])) := by
  rw [Inline.render, ← toList_renderTarget]
  simp [spelling]

theorem inline_of_isWordChar {c : Char} (h : Target.isWordChar c = true) : isLineEnd c = false ∧ c ≠ '|' := by
  have hspace := Target.not_isSpace_of_isWordChar h
  simp only [isSpace, Bool.or_eq_false_iff] at hspace
  exact ⟨by rw [isLineEnd, Bool.or_eq_false_iff]; exact ⟨hspace.1.2, hspace.2⟩, (Target.isWordChar_iff.1 h).2.2.2.2⟩

theorem inline_renderCode {text : String} (h : ∀ c ∈ text.toList, isLineEnd c = false ∧ c ≠ '|') :
    ∀ c ∈ (renderCode .empty text).toList, isLineEnd c = false ∧ c ≠ '|' := by
  have hfence : ∀ c ∈ List.replicate (longestTicks text + 1) '\x60', isLineEnd c = false ∧ c ≠ '|' := by
    intro c hc
    rw [List.eq_of_mem_replicate hc]
    exact ⟨rfl, by decide⟩
  have hpadded : ∀ c ∈ padded text.toList, isLineEnd c = false ∧ c ≠ '|' := by
    rw [padded]
    split_ifs
    · refine List.forall_mem_cons.2 ⟨⟨rfl, by decide⟩, List.forall_mem_append.2 ⟨h, ?_⟩⟩
      exact List.forall_mem_singleton.2 ⟨rfl, by decide⟩
    · exact h
  rw [toList_renderCode]
  exact List.forall_mem_append.2 ⟨hfence, List.forall_mem_append.2 ⟨hpadded, hfence⟩⟩

theorem Target.IsWritten.inline {dest title : String} (h : IsWritten dest title) :
    ∀ c ∈ targetInside dest title ++ [')'], isLineEnd c = false ∧ c ≠ '|' := by
  have hdest : ∀ c ∈ dest.toList, isLineEnd c = false ∧ c ≠ '|' :=
    fun c hc => inline_of_isWordChar (h.word c hc)
  have htitle : ∀ c ∈ title.toList, isLineEnd c = false ∧ c ≠ '|' := fun c hc =>
    have hline := Target.isTitleChar_iff.1 (h.line c hc)
    ⟨hline.1, hline.2.2.2.2⟩
  have hsign : ∀ c : Char, c = '(' ∨ c = ')' ∨ c = ' ' ∨ c = '"' → isLineEnd c = false ∧ c ≠ '|' := by
    rintro c (rfl | rfl | rfl | rfl) <;> exact ⟨rfl, by decide⟩
  intro c hc
  simp only [targetInside, List.mem_append, List.mem_cons, List.not_mem_nil, or_false] at hc
  split_ifs at hc
  · simp only [List.not_mem_nil, or_false] at hc
    rcases hc with (rfl | hc) | rfl
    exacts [hsign _ (by simp), hdest c hc, hsign _ (by simp)]
  · simp only [List.mem_append, List.mem_cons, List.not_mem_nil, or_false] at hc
    rcases hc with (rfl | hc | rfl | rfl | hc | rfl) | rfl
    exacts [hsign _ (by simp), hdest c hc, hsign _ (by simp), hsign _ (by simp), htitle c hc, hsign _ (by simp),
      hsign _ (by simp)]

section

variable {linked nested : Bool} {before after : Option Char} {inlines : List Inline}

/-- A phrase is written inside a line and inside a cell. -/
theorem Phrase.inline (h : Phrase linked nested before after inlines) :
    ∀ c ∈ spelling inlines, isLineEnd c = false ∧ c ≠ '|' := by
  induction h with
  | nil => exact List.forall_mem_nil _
  | text ne_empty idle ends rest ih =>
    rw [spelling_cons, Inline.render]
    exact List.forall_mem_append.2 ⟨inline_of_isIdle idle, ih⟩
  | @marked linked nested before after inline mark size content inlines is_marked fits inside rest ih ih_rest =>
    have hmarks : ∀ c ∈ List.replicate size mark, isLineEnd c = false ∧ c ≠ '|' := by
      intro c hc
      rw [List.eq_of_mem_replicate hc]
      rcases areMarks_of_marked is_marked with ⟨rfl, -⟩ | ⟨rfl, -⟩ <;> exact ⟨rfl, by decide⟩
    rw [spelling_cons, render_marked is_marked]
    exact List.forall_mem_append.2
      ⟨List.forall_mem_append.2 ⟨hmarks, List.forall_mem_append.2 ⟨ih, hmarks⟩⟩, ih_rest⟩
  | @code linked nested before after attr text inlines is_code rest ih =>
    rw [spelling_cons, Inline.render, render_code]
    refine List.forall_mem_append.2 ⟨List.forall_mem_append.2 ⟨inline_renderCode is_code.inline, ?_⟩, ih⟩
    rw [Attr.showNonempty]
    split_ifs with hempty
    · exact List.forall_mem_nil _
    · exact inline_of_isIdle (is_code.group (by simpa using hempty)).2
  | link target inside rest ih ih_rest =>
    rw [spelling_cons, render_link]
    refine List.forall_mem_append.2 ⟨List.forall_mem_cons.2 ⟨⟨rfl, by decide⟩, ?_⟩, ih_rest⟩
    exact List.forall_mem_append.2 ⟨ih, List.forall_mem_cons.2 ⟨⟨rfl, by decide⟩, target.inline⟩⟩
  | image target inside rest ih ih_rest =>
    rw [spelling_cons, render_image]
    refine List.forall_mem_append.2 ⟨List.forall_mem_cons.2 ⟨⟨rfl, by decide⟩, ?_⟩, ih_rest⟩
    refine List.forall_mem_cons.2 ⟨⟨rfl, by decide⟩, List.forall_mem_append.2 ⟨ih, ?_⟩⟩
    exact List.forall_mem_cons.2 ⟨⟨rfl, by decide⟩, target.inline⟩

/-- What is no text begins with a mark. -/
theorem Phrase.head_isMark (h : Phrase linked nested before after inlines) (hends : opensText inlines = false) :
    ∀ c ∈ (spelling inlines).head?, isMark c = true := by
  intro c hc
  cases h with
  | nil => cases hc
  | text => cases hends
  | marked is_marked =>
    rw [spelling_cons, render_marked is_marked] at hc
    rcases areMarks_of_marked is_marked with ⟨rfl, rfl | rfl⟩ | ⟨rfl, rfl⟩ <;> cases hc <;> rfl
  | code =>
    rw [spelling_cons, Inline.render, render_code, toList_renderCode] at hc
    cases hc
    rfl
  | link =>
    rw [spelling_cons, render_link] at hc
    cases hc
    rfl
  | image =>
    rw [spelling_cons, render_image] at hc
    cases hc
    rfl

end

end Literate.Markdown
