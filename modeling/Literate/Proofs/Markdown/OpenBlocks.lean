import Literate.Proofs.Markdown.Scan

/-!
# Containers left open

A container is closed only by a line that does not go on in it, so behind a block there may still be
containers open that stand inside of it (`Open`). What closes them is the next line. That is an empty line
or the line of the next item of a list around the block, and once it and, behind an empty line, the line
of the next block have been followed through the containers, all of them are closed but for a list
(`Open.next`, `Open.nextItem`). A list is closed by the block behind it, if that is no list with the same
mark (`Ready`). An empty line between two blocks of an item makes the list of the item loose
(`loosenOuter`); it means nothing anywhere else.
-/

namespace Literate.Markdown

def Container.isList : Container → Bool
  | .list .. => true
  | _ => false

/-- The mark of the list at the front of containers, if one is there. -/
def firstMark? : List Container → Option Char
  | .list _ mark _ :: _ => some mark
  | _ => none

/-- Containers in each other, outermost first: each item stands in a list, and each list holds one. -/
inductive Nested : List Container → Prop where
  | nil : Nested []
  | quote {containers : List Container} (inside : Nested containers) : Nested (.quote :: containers)
  | item (tight : Bool) (mark : Char) (number indent : Nat) {containers : List Container}
      (inside : Nested containers) :
      Nested (.list tight mark number :: .item (indent + 1) :: containers)

namespace Builder

-- ---------------------------------------------------------------------------
-- Closing
-- ---------------------------------------------------------------------------

def enclose (o : OpenContainer) (b : Builder) : Builder :=
  { b with stack := o :: b.stack }

def behindBlank (blank : Bool) (b : Builder) : Builder :=
  { b with afterBlank := blank }

section

variable {b : Builder}

theorem containers_enclose (o : OpenContainer) (b : Builder) :
    (b.enclose o).containers = b.containers ++ [o.container] := by
  simp [Builder.containers, enclose]

theorem containers_add (part : Part) (b : Builder) : (b.add part).containers = b.containers := by
  obtain ⟨stack, parts, afterBlank, bareItem, definitions⟩ := b
  cases stack <;> rfl

theorem length_stack (b : Builder) : b.stack.length = b.containers.length := by
  simp [Builder.containers]

theorem close_enclose (h : b.bareItem = false) (o : OpenContainer) :
    (b.enclose o).close = b.add o.toPart := by
  obtain ⟨stack, parts, afterBlank, bareItem, definitions⟩ := b
  obtain rfl : bareItem = false := h
  obtain ⟨container, inner⟩ := o
  unfold close enclose
  cases container with
  | list tight mark number => cases tight <;> rfl
  | _ => rfl

theorem bareItem_add (part : Part) (b : Builder) : (b.add part).bareItem = b.bareItem := by
  obtain ⟨stack, parts, afterBlank, bareItem, definitions⟩ := b
  cases stack <;> rfl

/-- A builder with open containers is one that encloses another. -/
theorem eq_enclose (b : Builder) (o : OpenContainer) (os : List OpenContainer) (h : b.stack = o :: os) :
    b = ({ b with stack := os } : Builder).enclose o := by
  obtain ⟨stack, parts, afterBlank, bareItem, definitions⟩ := b
  obtain rfl : stack = o :: os := h
  rfl

theorem containers_close (h : b.bareItem = false) : b.close.containers = b.containers.dropLast := by
  cases hstack : b.stack with
  | nil =>
    unfold close
    simp [hstack, Builder.containers]
  | cons o os =>
    rw [eq_enclose b o os hstack, close_enclose (b := { b with stack := os }) h, containers_add,
      containers_enclose, List.dropLast_concat]

theorem bareItem_close (h : b.bareItem = false) : b.close.bareItem = false := by
  cases hstack : b.stack with
  | nil =>
    unfold close
    simp [hstack, h]
  | cons o os =>
    rw [eq_enclose b o os hstack, close_enclose (b := { b with stack := os }) h, bareItem_add]
    exact h

theorem close_behindBlank (blank : Bool) (b : Builder) :
    (b.behindBlank blank).close = b.close.behindBlank blank := by
  obtain ⟨stack, parts, afterBlank, bareItem, definitions⟩ := b
  cases stack with
  | nil => rfl
  | cons o os => cases os <;> rfl

theorem closeMany_add (m n : Nat) (b : Builder) :
    closeMany (m + n) b = closeMany n (closeMany m b) := by
  induction m generalizing b with
  | zero => rw [Nat.zero_add]; rfl
  | succ m ih => rw [Nat.succ_add]; exact ih b.close

theorem closeMany_behindBlank (n : Nat) (blank : Bool) (b : Builder) :
    closeMany n (b.behindBlank blank) = (closeMany n b).behindBlank blank := by
  induction n generalizing b with
  | zero => rfl
  | succ n ih => rw [closeMany, close_behindBlank, ih, closeMany]

theorem bareItem_closeMany (n : Nat) (h : b.bareItem = false) : (closeMany n b).bareItem = false := by
  induction n generalizing b with
  | zero => exact h
  | succ n ih => exact ih (bareItem_close h)

theorem afterBlank_close (b : Builder) : b.close.afterBlank = b.afterBlank := by
  have hclose := congrArg (·.afterBlank) (close_behindBlank b.afterBlank b)
  exact hclose

theorem afterBlank_closeMany (n : Nat) (b : Builder) : (closeMany n b).afterBlank = b.afterBlank := by
  induction n generalizing b with
  | zero => rfl
  | succ n ih => rw [closeMany, ih, afterBlank_close]

/-- What is closed are the innermost containers. -/
theorem containers_closeMany {outer inner : List Container} (h : b.bareItem = false)
    (hcontainers : b.containers = outer ++ inner) :
    (closeMany inner.length b).containers = outer := by
  induction inner using List.reverseRecOn generalizing b with
  | nil => simpa [closeMany] using hcontainers
  | append_singleton inner container ih =>
    have hclose : b.close.containers = outer ++ inner := by
      rw [containers_close h, hcontainers, ← List.append_assoc, List.dropLast_concat]
    rw [List.length_append, List.length_singleton, closeMany]
    exact ih (bareItem_close h) hclose

-- ---------------------------------------------------------------------------
-- Ending lists
-- ---------------------------------------------------------------------------

/-- Makes the list loose that the item belongs to in which a builder stands. -/
def loosenOuter (b : Builder) : Builder :=
  { b with
    stack := match b.stack with
      | o :: outer :: os => o :: loosen outer :: os
      | os => os }

/-- A builder that stands in an item, in a quote or in nothing, behind a line that is not empty. -/
structure Settled (b : Builder) : Prop where
  afterBlank : b.afterBlank = false
  bareItem : b.bareItem = false
  not_list : ∀ o os, b.stack = o :: os → o.container.isList = false
  not_list_around : ∀ o outer os, b.stack = o :: outer :: os → o.container = .quote →
    outer.container.isList = false

theorem settled_empty : Settled empty :=
  ⟨rfl, rfl, nofun, nofun⟩

theorem Settled.quote (h : Settled b) (parts : List Part) : Settled (b.enclose ⟨.quote, parts⟩) := by
  refine ⟨h.afterBlank, h.bareItem, ?_, ?_⟩
  · intro o os hstack
    cases hstack
    rfl
  · intro o outer os hstack _
    obtain ⟨-, houter⟩ := List.cons.inj hstack
    exact h.not_list outer os houter

theorem Settled.item (h : Settled b) (o : OpenContainer) (indent : Nat) (parts : List Part) :
    Settled ((b.enclose o).enclose ⟨.item indent, parts⟩) := by
  refine ⟨h.afterBlank, h.bareItem, ?_, ?_⟩
  · intro o os hstack
    cases hstack
    rfl
  · intro o outer os hstack hquote
    cases hstack
    cases hquote

theorem Settled.add (h : Settled b) (part : Part) : Settled (b.add part) := by
  obtain ⟨stack, parts, afterBlank, bareItem, definitions⟩ := b
  cases stack with
  | nil => exact ⟨h.afterBlank, h.bareItem, nofun, nofun⟩
  | cons o os =>
    refine ⟨h.afterBlank, h.bareItem, ?_, ?_⟩
    · intro o' os' hstack
      cases hstack
      exact h.not_list o os rfl
    · intro o' outer os' hstack hquote
      cases hstack
      exact h.not_list_around o outer os' rfl hquote

theorem loosen_of_not_list {o : OpenContainer} (h : o.container.isList = false) : loosen o = o := by
  obtain ⟨container, parts⟩ := o
  cases container with
  | list tight mark number => cases h
  | _ => rfl

theorem isList_loosen (o : OpenContainer) : (loosen o).container.isList = o.container.isList := by
  obtain ⟨container, parts⟩ := o
  cases container <;> rfl

theorem Settled.loosenOuter (h : Settled b) : Settled b.loosenOuter := by
  obtain ⟨stack, parts, afterBlank, bareItem, definitions⟩ := b
  match stack, h with
  | [], h => exact ⟨h.afterBlank, h.bareItem, nofun, nofun⟩
  | [o], h => exact ⟨h.afterBlank, h.bareItem, h.not_list, nofun⟩
  | o :: outer :: os, h =>
    refine ⟨h.afterBlank, h.bareItem, ?_, ?_⟩
    · intro o' os' hstack
      cases hstack
      exact h.not_list o (outer :: os) rfl
    · intro o' outer' os' hstack hquote
      cases hstack
      exact (isList_loosen outer).trans (h.not_list_around o outer os rfl hquote)

theorem loosenOuter_loosenOuter (b : Builder) : b.loosenOuter.loosenOuter = b.loosenOuter := by
  obtain ⟨stack, parts, afterBlank, bareItem, definitions⟩ := b
  match stack with
  | [] => rfl
  | [_] => rfl
  | o :: ⟨container, inner⟩ :: os => cases container <;> rfl

theorem loosenOuter_add (part : Part) (b : Builder) :
    (b.add part).loosenOuter = b.loosenOuter.add part := by
  obtain ⟨stack, parts, afterBlank, bareItem, definitions⟩ := b
  match stack with
  | [] => rfl
  | [_] => rfl
  | _ :: _ :: _ => rfl

theorem containers_loosenOuter (b : Builder) :
    b.loosenOuter.containers.map Container.loosened = b.containers.map Container.loosened := by
  obtain ⟨stack, parts, afterBlank, bareItem, definitions⟩ := b
  match stack with
  | [] => rfl
  | [_] => rfl
  | o :: ⟨container, inner⟩ :: os =>
    cases container <;>
      simp [Builder.loosenOuter, Builder.containers, loosen, Container.loosened]

/-- No list is loosened by what stands in a quote. -/
theorem Settled.loosenOuter_quote (h : Settled b) (parts : List Part) :
    (b.enclose ⟨.quote, parts⟩).loosenOuter = b.enclose ⟨.quote, parts⟩ := by
  obtain ⟨stack, others, afterBlank, bareItem, definitions⟩ := b
  cases stack with
  | nil => rfl
  | cons o os =>
    have hloosen := loosen_of_not_list (h.not_list o os rfl)
    simp [Builder.loosenOuter, enclose, hloosen]

theorem loosenOuter_item (b : Builder) (tight : Bool) (mark : Char) (number indent : Nat)
    (items parts : List Part) :
    ((b.enclose ⟨.list tight mark number, items⟩).enclose ⟨.item indent, parts⟩).loosenOuter =
      (b.enclose ⟨.list false mark number, items⟩).enclose ⟨.item indent, parts⟩ := rfl

theorem Settled.finishList (h : Settled b) : b.finishList = b := by
  obtain ⟨stack, parts, afterBlank, bareItem, definitions⟩ := b
  obtain rfl : afterBlank = false := h.afterBlank
  obtain rfl : bareItem = false := h.bareItem
  match stack, h with
  | [], _ => rfl
  | ⟨.quote, _⟩ :: _, _ => rfl
  | ⟨.item _, _⟩ :: _, _ => rfl
  | ⟨.list .., inner⟩ :: os, h => exact absurd (h.not_list _ os rfl) (by simp [Container.isList])

theorem finishBareItem_eq (h : b.bareItem = false) : b.finishBareItem = b := by
  obtain ⟨stack, parts, afterBlank, bareItem, definitions⟩ := b
  obtain rfl : bareItem = false := h
  match stack with
  | [] => rfl
  | ⟨.quote, _⟩ :: _ => rfl
  | ⟨.item _, _⟩ :: _ => rfl
  | ⟨.list .., _⟩ :: _ => rfl

/-- A blank line in a quote means nothing. -/
theorem Settled.finishList_blankLine (h : Settled b) : b.blankLine.finishList = b.loosenOuter := by
  have hlist := h.not_list
  have haround := h.not_list_around
  obtain ⟨stack, parts, afterBlank, bareItem, definitions⟩ := b
  obtain rfl : afterBlank = false := h.afterBlank
  obtain rfl : bareItem = false := h.bareItem
  match stack with
  | [] => rfl
  | [⟨.quote, _⟩] => rfl
  | ⟨.quote, inner⟩ :: outer :: os =>
    have hloosen := loosen_of_not_list (haround _ outer os rfl rfl)
    simp only [Builder.loosenOuter, hloosen]
    rfl
  | [⟨.item _, _⟩] => rfl
  | ⟨.item _, _⟩ :: _ :: _ => rfl
  | ⟨.list .., inner⟩ :: os => exact absurd (hlist _ os rfl) (by simp [Container.isList])

theorem bareItem_blankLine (b : Builder) : b.blankLine.bareItem = b.bareItem := by
  obtain ⟨stack, parts, afterBlank, bareItem, definitions⟩ := b
  match stack with
  | [] => rfl
  | ⟨.quote, _⟩ :: _ => rfl
  | ⟨.item _, _⟩ :: _ => rfl
  | ⟨.list .., _⟩ :: _ => rfl

/-- Outside of quotes what comes behind a blank line is told so. -/
theorem blankLine_eq (hbare : b.bareItem = false) {outer inner : List Container}
    (hcontainers : b.containers = outer ++ inner) (hne : inner ≠ [])
    (hquote : ∀ container ∈ inner, container.isQuote = false) : b.blankLine = b.behindBlank true := by
  have hlast : b.containers.getLast? = some (inner.getLast hne) := by
    rw [hcontainers, List.getLast?_append_of_ne_nil _ hne, List.getLast?_eq_some_getLast]
  have hlast_quote := hquote _ (List.getLast_mem hne)
  generalize inner.getLast hne = container at hlast hlast_quote
  obtain ⟨stack, parts, afterBlank, bareItem, definitions⟩ := b
  obtain rfl : bareItem = false := hbare
  match stack with
  | [] => rfl
  | ⟨.quote, inner⟩ :: os =>
    have heq : container = .quote := by simpa [Builder.containers, eq_comm] using hlast
    rw [heq] at hlast_quote
    cases hlast_quote
  | ⟨.item _, _⟩ :: _ => rfl
  | ⟨.list .., _⟩ :: _ => rfl

/-- A list that an empty line stands behind ends by being closed. -/
theorem finishList_enclose_list (hblank : b.afterBlank = false) (hbare : b.bareItem = false)
    (tight : Bool) (mark : Char) (number : Nat) (items : List Part) :
    ((b.enclose ⟨.list tight mark number, items⟩).behindBlank true).finishList =
      (b.add (OpenContainer.toPart ⟨.list tight mark number, items⟩)).loosenOuter := by
  obtain ⟨stack, parts, afterBlank, bareItem, definitions⟩ := b
  obtain rfl : afterBlank = false := hblank
  obtain rfl : bareItem = false := hbare
  match stack, tight with
  | [], true => rfl
  | [], false => rfl
  | [_], true => rfl
  | [_], false => rfl
  | _ :: _ :: _, true => rfl
  | _ :: _ :: _, false => rfl

/-- A builder that becomes `b` once a block begins that is not an item of a list left open in it. -/
structure Ready (b now : Builder) : Prop where
  finishList : now.finishList = b
  bareItem : now.bareItem = false

/-- The mark of the list that is left open. -/
def openMark? (b : Builder) : Option Char :=
  firstMark? (b.stack.map (·.container))

theorem Settled.ready (h : Settled b) : Ready b b :=
  ⟨h.finishList, h.bareItem⟩

/-- An item with a mark of its own begins a list. -/
theorem Ready.continueList {now : Builder} (h : Ready b now) (hb : b.afterBlank = false)
    {marker : Marker} (hmark : now.openMark? ≠ some marker.mark) :
    now.continueList marker = b.enclose ⟨.list true marker.mark marker.number, []⟩ := by
  have hbegin : (now.finishList.openContainer (.list true marker.mark marker.number)).behindBlank false =
      b.enclose ⟨.list true marker.mark marker.number, []⟩ := by
    rw [h.finishList]
    obtain ⟨stack, parts, afterBlank, bareItem, definitions⟩ := b
    obtain rfl : afterBlank = false := hb
    rfl
  have hbare := h.bareItem
  obtain ⟨stack, parts, afterBlank, bareItem, definitions⟩ := now
  obtain rfl : bareItem = false := hbare
  match stack with
  | [] => cases afterBlank <;> exact hbegin
  | ⟨.quote, inner⟩ :: os => exact hbegin
  | ⟨.item indent, inner⟩ :: os => exact hbegin
  | ⟨.list tight mark number, inner⟩ :: os =>
    have hother : mark ≠ marker.mark := fun heq => hmark (congrArg some heq)
    rw [Builder.continueList, finishBareItem_eq rfl]
    simp only [if_neg hother]
    exact hbegin

/-- The next item goes on with its list. -/
theorem continueList_enclose_list (hblank : b.afterBlank = false) (hbare : b.bareItem = false)
    (tight : Bool) (marker : Marker) (number : Nat) (items : List Part) :
    (b.enclose ⟨.list tight marker.mark number, items⟩).continueList marker =
      b.enclose ⟨.list tight marker.mark number, items⟩ := by
  have hsame : (b.enclose ⟨.list tight marker.mark number, items⟩).finishBareItem =
      b.enclose ⟨.list tight marker.mark number, items⟩ := finishBareItem_eq hbare
  rw [continueList, hsame]
  simp [enclose, hblank]

end

-- ---------------------------------------------------------------------------
-- Containers left open
-- ---------------------------------------------------------------------------

/-- The builder `last` has more containers open than `b`, and becomes `b` when they are closed. -/
structure Open (b : Builder) (more : List Container) (last : Builder) : Prop where
  containers : last.containers = b.containers ++ more
  nested : Nested more
  afterBlank : last.afterBlank = false
  bareItem : last.bareItem = false
  closed : closeMany more.length last = b

section

variable {b last : Builder} {more : List Container}

theorem Settled.open (h : Settled b) : Open b [] b :=
  ⟨(List.append_nil _).symm, .nil, h.afterBlank, h.bareItem, rfl⟩

theorem Open.bareItem_eq (h : Open b more last) : b.bareItem = false := by
  rw [← h.closed]
  exact bareItem_closeMany _ h.bareItem

/-- What is open in a container is open where the container stands. -/
theorem Open.enclose {o : OpenContainer} (h : Open (b.enclose o) more last)
    (hnested : Nested (o.container :: more)) : Open (b.add o.toPart) (o.container :: more) last := by
  refine ⟨?_, hnested, h.afterBlank, h.bareItem, ?_⟩
  · rw [h.containers, containers_enclose, containers_add, List.append_assoc, List.singleton_append]
  · have hb : b.bareItem = false := h.bareItem_eq
    rw [List.length_cons, closeMany_add, h.closed]
    exact close_enclose hb o

theorem Open.encloseItem {tight : Bool} {mark : Char} {number indent : Nat} {items parts : List Part}
    (h : Open ((b.enclose ⟨.list tight mark number, items⟩).enclose ⟨.item (indent + 1), parts⟩) more
      last) :
    Open (b.add (OpenContainer.toPart ⟨.list tight mark number, .item parts.reverse :: items⟩))
      (.list tight mark number :: .item (indent + 1) :: more) last := by
  have hb : b.bareItem = false := h.bareItem_eq
  refine ⟨?_, .item tight mark number indent h.nested, h.afterBlank, h.bareItem, ?_⟩
  · rw [h.containers, containers_enclose, containers_enclose, containers_add]
    simp
  · rw [List.length_cons, List.length_cons, closeMany_add, closeMany_add, h.closed]
    have hitem := close_enclose (b := b.enclose ⟨.list tight mark number, items⟩) hb
      ⟨.item (indent + 1), parts⟩
    rw [closeMany, closeMany, closeMany, closeMany, hitem]
    exact close_enclose hb _

theorem length_sub_openAtEnd (more : List Container) : more.length - openAtEnd more =
    (more.dropWhile fun container => !container.isQuote).length := by
  have hsplit : more.takeWhile (fun container => !container.isQuote) ++
      more.dropWhile (fun container => !container.isQuote) = more := List.takeWhile_append_dropWhile
  have hlength := congrArg List.length hsplit
  rw [List.length_append] at hlength
  rw [openAtEnd]
  omega

/-- An empty line closes what does not go on at the end of a line. -/
theorem Open.blank (h : Open b more last) (size : Option Nat) (rest : List Char) :
    Reaches size (nestedLine b.containers [] ++ '\n' :: rest) last rest
      (closeMany (more.length - openAtEnd more) last).blankLine := by
  have hend : AtEnd ('\n' :: rest) := .inr ⟨rest, rfl⟩
  refine .line hend (by simp) h.containers (fun taken column => hend.enter taken column more) ?_
  exact .blank size rest _

theorem Settled.openMark?_blankLine (h : Settled b) : b.blankLine.openMark? = none := by
  have hlist := h.not_list
  obtain ⟨stack, parts, afterBlank, bareItem, definitions⟩ := b
  match stack with
  | [] => rfl
  | ⟨.quote, _⟩ :: _ => rfl
  | ⟨.item _, _⟩ :: _ => rfl
  | ⟨.list .., inner⟩ :: os => exact absurd (hlist _ os rfl) (by simp [Container.isList])

theorem containers_blankLine (hbare : b.bareItem = false) : b.blankLine.containers = b.containers := by
  obtain ⟨stack, parts, afterBlank, bareItem, definitions⟩ := b
  obtain rfl : bareItem = false := hbare
  match stack with
  | [] => rfl
  | ⟨.quote, _⟩ :: _ => rfl
  | ⟨.item _, _⟩ :: _ => rfl
  | ⟨.list .., _⟩ :: _ => rfl

/-- Where nothing is left open but quotes, the block behind an empty line follows at once. -/
theorem Open.next_closed (h : Open b more last) (hb : Settled b) (hmore : openAtEnd more = 0)
    {size : Option Nat} {line rest tail : List Char} {final : Builder} (hline : BeginsText line) (hrest : AtEnd rest)
    (hread : ReachesFrom size (line ++ rest) b.blankLine tail final) :
    Reaches size (nestedLine b.containers [] ++ '\n' :: (nestedLine b.containers line ++ rest))
      last tail final := by
  have hblank := h.blank size (nestedLine b.containers line ++ rest)
  rw [hmore, Nat.sub_zero, h.closed] at hblank
  have hcontainers : b.blankLine.containers = b.containers ++ [] := by
    rw [List.append_nil, containers_blankLine hb.bareItem]
  have henter : ∀ taken column, enter ⟨line ++ rest, taken, column, 0⟩ [] =
      (⟨line ++ rest, taken, column, 0⟩, 0) := fun _ _ => rfl
  exact hblank.trans (.line hrest (hline.append rest).ne_nil hcontainers henter hread)

/-- A builder in a list, behind an empty line, is ready for a block that stands where the list does. -/
theorem ready_of_list {list : Builder} (hblank : list.afterBlank = false) (hbare : list.bareItem = false)
    (hclose : list.close = b) {tight : Bool} {mark : Char} {number : Nat}
    (hcontainers : list.containers = b.containers ++ [.list tight mark number]) :
    Ready b.loosenOuter (list.behindBlank true) ∧ (list.behindBlank true).openMark? = some mark := by
  have hmap : list.stack.map (·.container) = .list tight mark number :: b.containers.reverse := by
    rw [← List.reverse_inj, ← Builder.containers, hcontainers]
    simp
  obtain ⟨⟨container, items⟩, os, hstack, hcontainer, -⟩ := List.map_eq_cons_iff.1 hmap
  obtain rfl : container = .list tight mark number := hcontainer
  have henclose := eq_enclose list _ os hstack
  have hadd := close_enclose (b := { list with stack := os }) hbare ⟨.list tight mark number, items⟩
  rw [← henclose, hclose] at hadd
  have hfinish := finishList_enclose_list (b := { list with stack := os }) hblank hbare tight mark number
    items
  rw [← henclose, ← hadd] at hfinish
  refine ⟨⟨hfinish, hbare⟩, ?_⟩
  rw [openMark?, behindBlank]
  simp only [hmap]
  rfl

/-- A list that is left open, once all that stands in it is closed: first what an empty line closes, then
what the line behind that closes. -/
theorem Open.closed_to_list {tight : Bool} {mark : Char} {number indent : Nat}
    {kept dropped : List Container}
    (h : Open b (.list tight mark number :: .item (indent + 1) :: (kept ++ dropped)) last) :
    let behind := closeMany dropped.length last
    let list := closeMany (kept.length + 1) behind
    behind.containers = b.containers ++ .list tight mark number :: .item (indent + 1) :: kept ∧
      behind.bareItem = false ∧ list.containers = b.containers ++ [.list tight mark number] ∧
      list.close = b ∧ list.afterBlank = false ∧ list.bareItem = false := by
  intro behind list
  have hbehind : behind.containers =
      b.containers ++ .list tight mark number :: .item (indent + 1) :: kept := by
    refine containers_closeMany h.bareItem ?_
    rw [h.containers]
    simp
  have hbehind_bare : behind.bareItem = false := bareItem_closeMany _ h.bareItem
  have hinner : behind.containers =
      (b.containers ++ [.list tight mark number]) ++ .item (indent + 1) :: kept := by
    rw [hbehind]
    simp
  have hclosed := h.closed
  rw [List.length_cons, List.length_cons, List.length_append,
    show kept.length + dropped.length + 1 + 1 = dropped.length + (kept.length + 1) + 1 by omega,
    closeMany_add, closeMany_add] at hclosed
  have hblank : list.afterBlank = false := by
    rw [afterBlank_closeMany, afterBlank_closeMany]
    exact h.afterBlank
  have hlist := containers_closeMany hbehind_bare hinner
  exact ⟨hbehind, hbehind_bare, hlist, hclosed, hblank, bareItem_closeMany _ hbehind_bare⟩

/-- A list that is left open is still open when the block behind it begins. -/
theorem Open.next_list {tight : Bool} {mark : Char} {number indent : Nat}
    (h : Open b (.list tight mark number :: .item (indent + 1) :: more) last) :
    ∃ now, Ready b.loosenOuter now ∧ now.openMark? = some mark ∧
      ∀ {size : Option Nat} {line rest tail : List Char} {final : Builder}, BeginsText line → AtEnd rest →
        ReachesFrom size (line ++ rest) now tail final →
        Reaches size (nestedLine b.containers [] ++ '\n' :: (nestedLine b.containers line ++ rest)) last tail
          final := by
  -- The empty line closes what stands in a quote, the line behind it all but the list itself.
  let kept := more.takeWhile fun container => !container.isQuote
  let dropped := more.dropWhile fun container => !container.isQuote
  have hsplit : kept ++ dropped = more := List.takeWhile_append_dropWhile
  obtain ⟨hbehind, hbehind_bare, hlist, hclose, hlist_blank, hlist_bare⟩ :=
    Open.closed_to_list (hsplit ▸ h)
  obtain ⟨hready, hmark⟩ := ready_of_list hlist_blank hlist_bare hclose hlist
  refine ⟨_, hready, hmark, ?_⟩
  intro size line rest tail final hline hrest hread
  have hblank := h.blank size (nestedLine b.containers line ++ rest)
  rw [length_sub_openAtEnd] at hblank
  have hno_quote : ∀ container ∈ Container.list tight mark number :: .item (indent + 1) :: kept,
      container.isQuote = false := by
    intro container hcontainer
    rcases List.mem_cons.1 hcontainer with rfl | hcontainer
    · rfl
    · rcases List.mem_cons.1 hcontainer with rfl | hcontainer
      · rfl
      · simpa using List.mem_takeWhile_imp hcontainer
  have hblankLine := blankLine_eq hbehind_bare hbehind (List.cons_ne_nil _ _) hno_quote
  refine hblank.trans ?_
  show Reaches size _ (closeMany dropped.length last).blankLine tail final
  rw [hblankLine]
  have hbegins := hline.append rest
  have henter : ∀ taken column, enter ⟨line ++ rest, taken, column, 0⟩
      (.list tight mark number :: .item (indent + 1) :: kept) = (⟨line ++ rest, taken, column, 0⟩, 1) := by
    intro taken column
    rw [enter, hbegins.enter_item]
  refine .line hrest hbegins.ne_nil hbehind henter ?_
  rw [closeMany_behindBlank]
  exact hread

/-- Behind an empty line a block begins where the one above it does. -/
theorem Open.next (h : Open b more last) (hb : Settled b) :
    ∃ now, Ready b.loosenOuter now ∧ now.openMark? = firstMark? more ∧
      ∀ {size : Option Nat} {line rest tail : List Char} {final : Builder}, BeginsText line → AtEnd rest →
        ReachesFrom size (line ++ rest) now tail final →
        Reaches size (nestedLine b.containers [] ++ '\n' :: (nestedLine b.containers line ++ rest)) last tail
          final := by
  have hready : Ready b.loosenOuter b.blankLine :=
    ⟨hb.finishList_blankLine, (bareItem_blankLine b).trans hb.bareItem⟩
  have hnested := h.nested
  cases hnested with
  | nil =>
    exact ⟨b.blankLine, hready, hb.openMark?_blankLine, fun hline hrest => h.next_closed hb rfl hline hrest⟩
  | quote inside =>
    exact ⟨b.blankLine, hready, hb.openMark?_blankLine, fun hline hrest => h.next_closed hb rfl hline hrest⟩
  | item tight mark number indent inside => exact h.next_list

/-- The next item begins where its list does. -/
theorem Open.nextItem {indent : Nat} {parts : List Part}
    (h : Open (b.enclose ⟨.item (indent + 1), parts⟩) more last) {size : Option Nat}
    {line rest tail : List Char} {final : Builder} (hline : BeginsText line) (hrest : AtEnd rest)
    (hread : ReachesFrom size (line ++ rest) (b.add (.item parts.reverse)) tail final) :
    Reaches size (nestedLine b.containers line ++ rest) last tail final := by
  have hbegins := hline.append rest
  have hb : b.bareItem = false := h.bareItem_eq
  have hcontainers : last.containers = b.containers ++ .item (indent + 1) :: more := by
    rw [h.containers, containers_enclose, List.append_assoc]
    rfl
  refine .line hrest hbegins.ne_nil hcontainers (fun taken column => hbegins.enter_item taken column indent more) ?_
  rw [List.length_cons, Nat.sub_zero, closeMany_add, h.closed]
  have hclose := close_enclose hb ⟨.item (indent + 1), parts⟩
  rw [closeMany, closeMany, hclose]
  exact hread

end

end Builder

end Literate.Markdown
