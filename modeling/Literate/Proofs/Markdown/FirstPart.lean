import Literate.Proofs.Markdown.Behind

/-!
# The first part of a source

Blocks are read one after the other into a builder. What is true of a builder whatever is added to it, and
whatever containers are opened and closed, is true once it has become true (`Lasting`). So what is read stays in
front of all that comes (`lasting_suffix`), and the first part of a source is known as soon as there is one, or a
container is open (`lasting_begun`). Until then only blank lines and definitions are read, and these end in the
middle of the source (`Fresh.readBlock`).

Main result: `isFrontMatter_of_partsOf`. If the first part is front matter, its pieces are those behind a line of
the source.
-/

namespace Literate.Markdown

def Part.isMetadata : Part → Bool
  | .metadata .. => true
  | _ => false

/-- A part that is front matter with the pieces behind the line that opens it, which are at the end of a source
of so many bytes. -/
def Part.IsFrontMatter (size : Nat) (source : List Char) (part : Part) : Prop :=
  ∃ body, body <:+ source ∧
    part = .metadata ((readMetadata [] (body.length + 1) body).1.map (MetadataPiece.placed size))

/-- Whether a part can be the first of a source: any but front matter can. -/
def Part.MayBegin (size : Nat) (source : List Char) (part : Part) : Prop :=
  part.isMetadata = true → part.IsFrontMatter size source

theorem Part.mayBegin {part : Part} (h : part.isMetadata = false) (size : Nat) (source : List Char) :
    part.MayBegin size source :=
  fun his => absurd his (by simp [h])

namespace Builder

-- ---------------------------------------------------------------------------
-- What lasts
-- ---------------------------------------------------------------------------

/-- A property that no step of the scan takes away: it is kept when a part is added and when a container is
opened or closed, and does not depend on how containers are labelled. -/
structure Lasting (P : Builder → Prop) : Prop where
  add : ∀ {b : Builder} (part : Part), P b → P (b.add part)
  close : ∀ {b : Builder}, P b → P b.close
  openContainer : ∀ {b : Builder} (container : Container), P b → P (b.openContainer container)
  relabel : ∀ {b relabelled : Builder}, P b → relabelled.parts = b.parts →
    relabelled.stack.length = b.stack.length → P relabelled

namespace Lasting

variable {P : Builder → Prop} {b : Builder} (hP : Lasting P)

include hP

theorem closeMany (h : P b) (n : Nat) : P (closeMany n b) := by
  induction n generalizing b with
  | zero => exact h
  | succ n ih => exact ih (hP.close h)

theorem finishBareItem (h : P b) : P b.finishBareItem := by
  simp only [Builder.finishBareItem]
  repeat' split
  all_goals first | exact hP.relabel (hP.close h) rfl rfl | exact hP.relabel h rfl rfl

theorem finishList (h : P b) : P b.finishList := by
  have hbare := hP.finishBareItem h
  unfold Builder.finishList
  lift_lets
  extract_lets bare closed
  have hclosed : P closed := by
    unfold closed
    split
    · exact hP.close hbare
    · exact hbare
  split
  · refine hP.relabel hclosed rfl ?_
    dsimp only
    split <;> simp_all only [List.length_cons]
  · exact hclosed

theorem continueList (h : P b) (marker : Marker) : P (b.continueList marker) := by
  have hbare := hP.finishBareItem h
  have hbegins : ∀ {next : Builder}, P next → P
      { next.openContainer (.list true marker.mark marker.number) with afterBlank := false } :=
    fun hnext => hP.relabel (hP.openContainer _ hnext) rfl rfl
  simp only [Builder.continueList]
  split
  · exact hbegins hbare
  · rename_i hstack
    split
    · split
      · split
        · refine hP.relabel hbare rfl ?_
          rw [hstack]
          rfl
        · exact hbare
      · exact hbegins (hP.finishList hbare)
    · exact hbegins (hP.finishList hbare)

theorem blankLine (h : P b) : P b.blankLine := by
  unfold Builder.blankLine
  split
  · exact h
  · rename_i hstack
    refine hP.relabel h rfl ?_
    rw [hstack]
    rfl
  · exact hP.relabel h rfl rfl

theorem openContainers (h : P b) (fuel : Nat) (c : Cursor) : P (openContainers fuel c b).1 := by
  induction fuel generalizing c b with
  | zero => exact h
  | succ fuel ih =>
    rw [Builder.openContainers]
    dsimp only
    split
    · exact h
    · split
      · rename_i marker indent inner _
        have hitem := hP.openContainer (.item indent) (hP.continueList h marker)
        split
        · exact hP.relabel hitem rfl rfl
        · exact ih hitem inner
      · split
        · exact ih (hP.openContainer .quote (hP.finishList h)) _
        · exact h

theorem readText (h : P b) (cs : List Char) : P (b.readText cs).1 := by
  simp only [Builder.readText]
  repeat' split
  all_goals exact hP.add _ h

theorem readUnindented (h : P b) (pending indent : Nat) (cs : List Char) :
    P (b.readUnindented pending indent cs).1 := by
  unfold Builder.readUnindented
  split
  · rename_i result hresult
    unfold readHtmlBlock? at hresult
    split at hresult
    · obtain ⟨blockEnd, -, rfl⟩ := Option.map_eq_some_iff.mp hresult
      exact hP.add _ h
    · cases hresult
  · dsimp only
    repeat' split
    all_goals first | exact hP.add _ h | exact hP.relabel h rfl rfl | exact hP.readText h cs

/-- What is true behind the marks of the containers that a line opens is true behind the block there. -/
theorem readFrom {size : Option Nat} {fuel : Nat} {c : Cursor} (h : P (Builder.openContainers fuel c b).1) :
    P (readFrom size fuel c b).1 := by
  unfold Builder.readFrom
  split
  · rename_i heq
    rw [heq] at h
    exact h
  · rename_i heq
    rw [heq] at h
    have hfinished := hP.finishList h
    dsimp only
    repeat' split
    · exact hP.blankLine h
    · exact hP.add _ (hP.relabel hfinished rfl rfl)
    · exact hP.add _ hfinished
    · exact hP.readUnindented hfinished _ _ _

theorem readBlock (h : P b) (size : Option Nat) (cs : List Char) : P (b.readBlock size cs).1 := by
  rw [readBlock_eq]
  exact hP.readFrom (hP.openContainers (hP.closeMany h _) _ _)

/-- What has become true stays so to the end of the source. -/
theorem readBlocks (h : P b) (size : Option Nat) (fuel : Nat) (cs : List Char) :
    P (b.readBlocks size fuel cs) := by
  induction fuel generalizing cs b with
  | zero => exact h
  | succ fuel ih =>
    cases cs with
    | nil => exact h
    | cons c cs => exact ih (hP.readBlock h size (c :: cs)) _

end Lasting

theorem parts_add (part : Part) (b : Builder) :
    (b.add part).parts = if b.stack = [] then part :: b.parts else b.parts := by
  unfold add
  split <;> simp_all

theorem length_stack_add (part : Part) (b : Builder) : (b.add part).stack.length = b.stack.length := by
  unfold add
  split <;> simp_all

theorem exists_close {b : Builder} {o : OpenContainer} {os : List OpenContainer} (h : b.stack = o :: os) :
    ∃ bareItem, b.close = { b with stack := os, bareItem }.add o.toPart := by
  unfold close
  rw [h]
  exact ⟨_, rfl⟩

/-- What is read of a source stays in front of what comes. -/
theorem lasting_suffix (front : List Part) : Lasting fun b => front <:+ b.parts where
  add {b} part h := by
    rw [parts_add]
    split
    · exact h.trans (List.suffix_cons ..)
    · exact h
  close {b} h := by
    rcases hstack : b.stack with _ | ⟨o, os⟩
    · rw [close, hstack]
      exact h
    · obtain ⟨bareItem, hclose⟩ := exists_close hstack
      rw [hclose, parts_add]
      split
      · exact h.trans (List.suffix_cons ..)
      · exact h
  openContainer _ h := h
  relabel h hparts _ := hparts ▸ h

-- ---------------------------------------------------------------------------
-- The first part
-- ---------------------------------------------------------------------------

/-- Whether the first part of a source is there and is `good`, or a container is open that comes to be it. -/
structure Begun (good : Part → Prop) (b : Builder) : Prop where
  first : ∀ part ∈ b.parts.getLast?, good part
  ne_nil : b.parts = [] → b.stack ≠ []

/-- A part that is added is the first, or there is one, or it stands in a container. -/
theorem begun_add {good : Part → Prop} {b : Builder} {part : Part} (h : ∀ first ∈ b.parts.getLast?, good first)
    (hpart : b.parts = [] → b.stack = [] → good part) : Begun good (b.add part) := by
  have hlength := length_stack_add part b
  constructor
  · rw [parts_add]
    split
    · rename_i hstack
      rcases eq_or_ne b.parts [] with hnone | hsome
      · rw [hnone]
        rintro first ⟨⟩
        exact hpart hnone hstack
      · rw [List.getLast?_cons_of_ne_nil hsome]
        exact h
    · exact h
  · rw [parts_add]
    split
    · exact fun hnone => absurd hnone (List.cons_ne_nil _ _)
    · rename_i hopen
      intro _ hnone
      rw [hnone, List.length_nil, eq_comm, List.length_eq_zero_iff] at hlength
      exact hopen hlength

theorem isMetadata_toPart (o : OpenContainer) : o.toPart.isMetadata = false := by
  unfold OpenContainer.toPart
  split <;> rfl

/-- A source that has its first part keeps it, if every part that is no front matter is good. -/
theorem lasting_begun {good : Part → Prop} (hgood : ∀ part, part.isMetadata = false → good part) :
    Lasting (Begun good) where
  add _ h := begun_add h.first fun hparts hstack => absurd hstack (h.ne_nil hparts)
  close {b} h := by
    rcases hstack : b.stack with _ | ⟨o, os⟩
    · rwa [close, hstack]
    · obtain ⟨bareItem, hclose⟩ := exists_close hstack
      rw [hclose]
      exact begun_add h.first fun _ _ => hgood _ (isMetadata_toPart o)
  openContainer _ h := ⟨h.first, fun _ => List.cons_ne_nil _ _⟩
  relabel {b relabelled} h hparts hstack := by
    refine ⟨hparts ▸ h.first, fun hnone hempty => h.ne_nil (hparts ▸ hnone) ?_⟩
    rw [← List.length_eq_zero_iff, ← hstack, hempty, List.length_nil]

/-- Whether nothing is read yet but blank lines and definitions. -/
structure Fresh (b : Builder) : Prop where
  stack : b.stack = []
  parts : b.parts = []

namespace Fresh

variable {b : Builder} (hb : Fresh b)

include hb

theorem finishList : Fresh b.finishList := by
  obtain ⟨hstack, hparts⟩ := hb
  by_cases hblank : b.afterBlank <;>
    exact ⟨by simp [Builder.finishList, finishBareItem, hstack, hblank],
      by simp [Builder.finishList, finishBareItem, hstack, hparts, hblank]⟩

theorem blankLine : Fresh b.blankLine := by
  obtain ⟨hstack, hparts⟩ := hb
  exact ⟨by simp [Builder.blankLine, hstack], by simp [Builder.blankLine, hstack, hparts]⟩

theorem parts_continueList (marker : Marker) : (b.continueList marker).parts = [] := by
  simp [continueList, finishBareItem, openContainer, hb.stack, hb.parts]

theorem containers : b.containers = [] := by
  rw [Builder.containers, hb.stack]
  rfl

theorem add {good : Part → Prop} {part : Part} (h : good part) : Begun good (b.add part) :=
  begun_add (by simp [hb.parts]) fun _ _ => h

/-- Where no container is open, none is opened or the source has begun. -/
theorem openContainers {good : Part → Prop} (hgood : ∀ part, part.isMetadata = false → good part)
    (fuel : Nat) (c : Cursor) :
    openContainers fuel c b = (b, .inr c) ∨ Begun good (openContainers fuel c b).1 := by
  have hlasting := lasting_begun hgood
  cases fuel with
  | zero => exact .inl rfl
  | succ fuel =>
    have hopened : ∀ (next : Builder) (container : Container), next.parts = [] →
        Begun good (next.openContainer container) := fun next container hnext =>
      ⟨fun part hpart => by simp [openContainer, hnext] at hpart, fun _ => List.cons_ne_nil _ _⟩
    rw [Builder.openContainers]
    dsimp only
    split
    · exact .inl rfl
    · split
      · rename_i marker indent inner _
        have hitem := hopened (b.continueList marker) (.item indent) (hb.parts_continueList marker)
        split
        · exact .inr (hlasting.relabel hitem rfl rfl)
        · exact .inr (hlasting.openContainers hitem fuel inner)
      · split
        · exact .inr (hlasting.openContainers (hopened _ .quote hb.finishList.parts) fuel _)
        · exact .inl rfl

/-- Reading a block leaves a source that has not begun so, or begins it. -/
theorem readUnindented {good : Part → Prop} (hgood : ∀ part, part.isMetadata = false → good part)
    (pending indent : Nat) (cs : List Char) :
    (Fresh (b.readUnindented pending indent cs).1 ∧ (b.readUnindented pending indent cs).2 <:+ cs) ∨
      Begun good (b.readUnindented pending indent cs).1 := by
  unfold Builder.readUnindented
  split
  · rename_i result hresult
    unfold readHtmlBlock? at hresult
    split at hresult
    · obtain ⟨blockEnd, -, rfl⟩ := Option.map_eq_some_iff.mp hresult
      exact .inr (hb.add (hgood _ rfl))
    · cases hresult
  · split
    · exact .inr (hb.add (hgood _ rfl))
    · split
      · exact .inr (hb.add (hgood _ rfl))
      · split
        · exact .inr (hb.add (hgood _ rfl))
        · split
          · rename_i key target rest hdefinition
            rw [hb.containers] at hdefinition
            exact .inl ⟨⟨hb.stack, hb.parts⟩, suffix_readDefinition? hdefinition⟩
          · simp only [Builder.readText]
            repeat' split
            all_goals exact .inr (hb.add (hgood _ rfl))

/-- At the beginning of a line nothing is read yet, and it goes on in the middle of the source; or the source has
begun, and if with front matter, then with the text below that line. -/
theorem readBlock {size : Nat} {source cs : List Char} (hcs : cs <:+ source) :
    (Fresh (b.readBlock (some size) cs).1 ∧ (b.readBlock (some size) cs).2 <:+ source) ∨
      Begun (Part.MayBegin size source) (b.readBlock (some size) cs).1 := by
  have hgood : ∀ part : Part, part.isMetadata = false → part.MayBegin size source :=
    fun part hpart => Part.mayBegin hpart size source
  have henter : enter (.ofLine cs) b.containers = (.ofLine cs, 0) := by
    rw [hb.containers]
    rfl
  have hclosed : b.closeMany (b.stack.length - 0) = b := by
    rw [hb.stack]
    rfl
  rw [readBlock_eq, henter, hclosed]
  -- A container that opens is a part of its own; otherwise the line decides.
  rcases hb.openContainers hgood (cs.length + 1) (.ofLine cs) with hopened | hbegun
  · rw [readFrom, hopened]
    dsimp only
    split
    · rename_i below hblank
      exact .inl ⟨hb.blankLine, (suffix_afterBlankLine? hblank).trans hcs⟩
    · have hfresh := hb.finishList
      have hinner := (suffix_skip 4 (.ofLine cs)).trans hcs
      split
      · have hblank : Fresh { b.finishList with
            afterBlank := (readIndentedCode b.finishList.containers ((Cursor.skip 4 (.ofLine cs)).1.rest.length + 1)
              (Cursor.skip 4 (.ofLine cs)).1.pending (Cursor.skip 4 (.ofLine cs)).1.rest).2.2 } :=
          ⟨hfresh.stack, hfresh.parts⟩
        exact .inr (hblank.add (hgood _ rfl))
      · split
        · rename_i given hsize
          obtain rfl : size = given := by
            rw [Option.ite_none_right_eq_some] at hsize
            exact Option.some.inj hsize.2
          refine .inr (hfresh.add fun _ => ⟨_, (suffix_splitLine _).trans hinner, ?_⟩)
          rw [hfresh.containers]
        · rcases hfresh.readUnindented hgood _ _ _ with ⟨hnext, hbelow⟩ | hbegun
          · exact .inl ⟨hnext, hbelow.trans hinner⟩
          · exact .inr hbegun
  · exact .inr ((lasting_begun hgood).readFrom hbegun)

/-- Reading a source to its end leaves no part, or begins it. -/
theorem readBlocks {size : Nat} {source : List Char} (fuel : Nat) {cs : List Char} (hcs : cs <:+ source) :
    Fresh (b.readBlocks (some size) fuel cs) ∨
      Begun (Part.MayBegin size source) (b.readBlocks (some size) fuel cs) := by
  induction fuel generalizing b cs with
  | zero => exact .inl hb
  | succ fuel ih =>
    cases cs with
    | nil => exact .inl hb
    | cons c cs =>
      rcases hb.readBlock hcs with ⟨hnext, hbelow⟩ | hbegun
      · exact ih hnext hbelow
      · exact .inr ((lasting_begun fun part hpart => Part.mayBegin hpart size source).readBlocks hbegun _ _ _)

end Fresh

end Builder

/-- **The first part.** If a source begins with front matter, its pieces are those behind a line of the source, at
the bytes where they stand in it. -/
theorem isFrontMatter_of_partsOf {cs : List Char} {pieces : List (Nat × String)} {parts : List Part}
    (h : (partsOf true cs).1 = .metadata pieces :: parts) :
    (Part.metadata pieces).IsFrontMatter (String.ofList cs).utf8ByteSize cs := by
  rw [partsOf, if_pos rfl] at h
  generalize hsize : (String.ofList cs).utf8ByteSize = size at h
  have hempty : Builder.Fresh .empty := ⟨rfl, rfl⟩
  have hread : (Builder.empty.readBlocks (some size) (cs.length + 1) cs).Fresh ∨
      (Builder.empty.readBlocks (some size) (cs.length + 1) cs).Begun (Part.MayBegin size cs) :=
    hempty.readBlocks _ (List.suffix_refl cs)
  dsimp only at h
  generalize Builder.empty.readBlocks (some size) (cs.length + 1) cs = b at h hread
  have hlast : (b.closeMany b.stack.length).parts.getLast? = some (.metadata pieces) := by
    rw [← List.head?_reverse, h, List.head?_cons]
  rcases hread with hfresh | hbegun
  · rw [hfresh.stack, List.length_nil, Builder.closeMany, hfresh.parts] at hlast
    cases hlast
  · have hlasting := Builder.lasting_begun fun part hpart => Part.mayBegin hpart size cs
    exact (hlasting.closeMany hbegun b.stack.length).first _ hlast rfl

end Literate.Markdown
