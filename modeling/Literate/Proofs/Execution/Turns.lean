import Literate.Execution.Transcript
import Mathlib

/-!
# Reading turn after turn

What an interpreter puts out is a stream of bytes, and it is read in pieces that are cut anywhere: inside
a line, a marker or a character. Two things make turns of it all the same. A piece is only looked at
together with all that came before it in the turn, and no piece goes beyond the end of a turn, since
after a marker the interpreter waits. So the turns that are read are those that were put out, whatever
the pieces.

Main results:

* `readFrom_turn`: of a turn that arrives in pieces the reader gives the whole, and takes nothing of what
  comes after it.
* `readFrom_ended`: bytes that never end with a marker are an error when the output ends.
* `readTurns_of_deliveries`: reading as often as there are turns gives these turns.
-/

namespace Literate

namespace Reading

/-- Readings that give some bytes, a few at a time, with any number of interruptions. -/
inductive Delivers : List Reading → List UInt8 → Prop where
  | nil : Delivers [] []
  | interrupted {readings : List Reading} {bytes : List UInt8} (later : Delivers readings bytes) :
      Delivers (.interrupted :: readings) bytes
  | bytes {chunk bytes : List UInt8} {readings : List Reading} (ne_nil : chunk ≠ [])
      (later : Delivers readings bytes) : Delivers (.bytes chunk :: readings) (chunk ++ bytes)

/-- Whether the output has ended: nothing can be read any more. -/
def AtEnd : List Reading → Prop
  | [] | .bytes [] :: _ => True
  | _ => False

/-- Attempts that gave no bytes were all interrupted. -/
theorem Delivers.eq_interrupted {readings : List Reading} {bytes : List UInt8}
    (h : Delivers readings bytes) (hbytes : bytes = []) :
    ∀ reading ∈ readings, reading = .interrupted := by
  induction h with
  | nil => exact fun _ hreading => absurd hreading List.not_mem_nil
  | interrupted _ ih => exact List.forall_mem_cons.mpr ⟨rfl, ih hbytes⟩
  | bytes ne_nil _ _ => exact absurd (List.append_eq_nil_iff.mp hbytes).1 ne_nil

/-- What is delivered after some interruptions is delivered with them. -/
theorem Delivers.after {pause readings : List Reading} {bytes : List UInt8}
    (hpause : ∀ reading ∈ pause, reading = .interrupted) (h : Delivers readings bytes) :
    Delivers (pause ++ readings) bytes := by
  induction pause with
  | nil => exact h
  | cons reading pause ih =>
    obtain ⟨rfl, hrest⟩ := List.forall_mem_cons.mp hpause
    exact .interrupted (ih hrest)

end Reading

namespace Markers

open Reading (Delivers AtEnd)

-- ---------------------------------------------------------------------------
-- Bytes that end with a marker
-- ---------------------------------------------------------------------------

/-- Whether there is something to see of both markers. -/
structure Visible (markers : Markers) : Prop where
  prompt_ne : markers.prompt ≠ ""
  continuation_ne : markers.continuation ≠ ""

/-- Whether bytes end with the prompt or the continuation marker. -/
def EndsIn (markers : Markers) (bytes : List UInt8) : Prop :=
  Text.Utf8.encode markers.prompt.toList <:+ bytes ∨
    Text.Utf8.encode markers.continuation.toList <:+ bytes

instance (markers : Markers) (bytes : List UInt8) : Decidable (markers.EndsIn bytes) :=
  inferInstanceAs (Decidable (_ ∨ _))

/-- Whether bytes are one turn: they end with a marker, and no first part of them does. -/
structure IsTurn (markers : Markers) (turn : List UInt8) : Prop where
  endsIn : markers.EndsIn turn
  not_endsIn : ∀ part, part <+: turn → part ≠ [] → part ≠ turn → ¬ markers.EndsIn part

instance (markers : Markers) (turn : List UInt8) : Decidable (markers.IsTurn turn) :=
  decidable_of_iff
    (markers.EndsIn turn ∧ ∀ part ∈ turn.inits, part ≠ [] → part ≠ turn → ¬ markers.EndsIn part)
    ⟨fun h => ⟨h.1, fun part hpart => h.2 part ((List.mem_inits ..).mpr hpart)⟩,
      fun h => ⟨h.endsIn, fun part hpart => h.not_endsIn part ((List.mem_inits ..).mp hpart)⟩⟩

/-- The bytes of a turn as a turn: read as text as a whole, with the marker that they end with. -/
def turnOf (markers : Markers) (bytes : List UInt8) : Turn :=
  ⟨String.ofList (Text.Utf8.decodeLossy bytes),
    if Text.Utf8.encode markers.prompt.toList <:+ bytes then .prompt else .continuation⟩

variable {markers : Markers} {bytes seen : List UInt8} {readings rest : List Reading}

theorem encode_ne_nil {marker : String} (h : marker ≠ "") :
    Text.Utf8.encode marker.toList ≠ [] := by
  intro hnil
  rcases hchars : marker.toList with _ | ⟨c, cs⟩
  · exact h (String.toList_eq_nil_iff.mp hchars)
  · rw [hchars, Text.Utf8.encode, List.flatMap_cons, List.append_eq_nil_iff] at hnil
    have hlength := String.length_utf8EncodeChar c
    rw [hnil.1] at hlength
    exact absurd hlength (Nat.ne_of_lt c.utf8Size_pos)

section

variable (hmarkers : markers.Visible)

include hmarkers

theorem terminator?_eq : markers.terminator? bytes =
    if markers.EndsIn bytes then some (markers.turnOf bytes).marker else none := by
  have hends : ∀ marker : String, marker ≠ "" →
      (!marker.isEmpty && (Text.Utf8.encode marker.toList).isSuffixOf bytes) =
        decide (Text.Utf8.encode marker.toList <:+ bytes) := by
    intro marker hmarker
    rw [Bool.eq_iff_iff]
    simp [hmarker]
  simp only [terminator?, hends _ hmarkers.prompt_ne, hends _ hmarkers.continuation_ne, decide_eq_true_eq,
    turnOf, EndsIn]
  by_cases hp : Text.Utf8.encode markers.prompt.toList <:+ bytes
  · simp [hp]
  · simp [hp]

theorem turnOf?_eq : markers.turnOf? bytes =
    if markers.EndsIn bytes then some (markers.turnOf bytes) else none := by
  rw [turnOf?, terminator?_eq hmarkers]
  by_cases h : markers.EndsIn bytes
  · rw [if_pos h, if_pos h]
    rfl
  · rw [if_neg h, if_neg h]
    rfl

/-- Before anything is read there is no turn. -/
theorem not_endsIn_nil : ¬ markers.EndsIn [] := by
  rintro (h | h)
  · exact encode_ne_nil hmarkers.prompt_ne (List.suffix_nil.mp h)
  · exact encode_ne_nil hmarkers.continuation_ne (List.suffix_nil.mp h)

/-- No first part of a turn is one. -/
theorem IsTurn.not_endsIn_part {turn part : List UInt8} (h : markers.IsTurn turn) (hpart : part <+: turn)
    (hne : part ≠ turn) : ¬ markers.EndsIn part := by
  by_cases hempty : part = []
  · rw [hempty]
    exact not_endsIn_nil hmarkers
  · exact h.not_endsIn part hpart hempty hne

-- ---------------------------------------------------------------------------
-- Single attempts
-- ---------------------------------------------------------------------------

/-- A turn that is complete is given, and nothing more is read. -/
theorem readFrom_of_endsIn (h : markers.EndsIn seen) (readings : List Reading) :
    markers.readFrom seen readings = (.ok (markers.turnOf seen), readings) := by
  have hturn : markers.turnOf? seen = some (markers.turnOf seen) := by
    rw [turnOf?_eq hmarkers, if_pos h]
  rcases readings with _ | ⟨reading, readings⟩
  · rw [readFrom, hturn]
  · rw [readFrom.eq_def]
    simp only [hturn]

theorem turnOf?_of_not_endsIn (h : ¬ markers.EndsIn seen) : markers.turnOf? seen = none := by
  rw [turnOf?_eq hmarkers, if_neg h]

theorem readFrom_interrupted (h : ¬ markers.EndsIn seen) (readings : List Reading) :
    markers.readFrom seen (.interrupted :: readings) = markers.readFrom seen readings := by
  rw [readFrom, turnOf?_of_not_endsIn hmarkers h]

theorem readFrom_bytes (h : ¬ markers.EndsIn seen) {chunk : List UInt8} (hchunk : chunk ≠ [])
    (readings : List Reading) :
    markers.readFrom seen (.bytes chunk :: readings) =
      markers.readFrom (seen ++ chunk) readings := by
  rw [readFrom, turnOf?_of_not_endsIn hmarkers h]
  exact hchunk

theorem readFrom_atEnd (h : ¬ markers.EndsIn seen) (hend : AtEnd readings) :
    (markers.readFrom seen readings).1 =
      .error (.terminated (String.ofList (Text.Utf8.decodeLossy seen))) := by
  have hturn := turnOf?_of_not_endsIn hmarkers h
  unfold AtEnd at hend
  split at hend
  · rw [readFrom, hturn]
    rfl
  · rw [readFrom, hturn]
    rfl
  · exact hend.elim

-- ---------------------------------------------------------------------------
-- Turns in pieces
-- ---------------------------------------------------------------------------

/-- The rest of a turn arrives in pieces: the reader gives the whole turn, and leaves what comes after
it, with the attempts that were interrupted in between. -/
theorem readFrom_turn (h : Delivers readings bytes) (hturn : markers.EndsIn (seen ++ bytes))
    (hpart : ∀ part, part <+: bytes → part ≠ bytes → ¬ markers.EndsIn (seen ++ part)) :
    ∃ pause, (∀ reading ∈ pause, reading = .interrupted) ∧
      markers.readFrom seen (readings ++ rest) = (.ok (markers.turnOf (seen ++ bytes)), pause ++ rest) := by
  induction h generalizing seen with
  | nil =>
    rw [List.append_nil] at hturn ⊢
    exact ⟨[], by simp, readFrom_of_endsIn hmarkers hturn rest⟩
  | @interrupted readings bytes later ih =>
    by_cases hbytes : bytes = []
    · -- The turn was complete before, and all that is left of its pieces are interruptions.
      subst hbytes
      rw [List.append_nil] at hturn ⊢
      refine ⟨.interrupted :: readings, ?_, readFrom_of_endsIn hmarkers hturn _⟩
      exact (Delivers.interrupted later).eq_interrupted rfl
    · have hseen : ¬ markers.EndsIn seen := by
        have hnil := hpart [] List.nil_prefix (Ne.symm hbytes)
        rwa [List.append_nil] at hnil
      rw [List.cons_append, readFrom_interrupted hmarkers hseen]
      exact ih hturn hpart
  | @bytes chunk bytes readings ne_nil later ih =>
    have hseen : ¬ markers.EndsIn seen := by
      have hnil := hpart [] List.nil_prefix fun heq => ne_nil (List.append_eq_nil_iff.mp heq.symm).1
      rwa [List.append_nil] at hnil
    rw [List.cons_append, readFrom_bytes hmarkers hseen ne_nil, ← List.append_assoc]
    refine ih (by rwa [List.append_assoc]) fun part hprefix hne => ?_
    rw [List.append_assoc]
    exact hpart _ ((List.prefix_append_right_inj chunk).mpr hprefix)
      fun heq => hne (List.append_cancel_left heq)

/-- Bytes without a marker at the end of any part of them, and then no more: the reader gives the error
with all of these bytes. -/
theorem readFrom_ended (h : Delivers readings bytes) (hend : AtEnd rest)
    (hpart : ∀ part, part <+: bytes → ¬ markers.EndsIn (seen ++ part)) :
    (markers.readFrom seen (readings ++ rest)).1 =
      .error (.terminated (String.ofList (Text.Utf8.decodeLossy (seen ++ bytes)))) := by
  have hseen : ¬ markers.EndsIn seen := by
    have hnil := hpart [] List.nil_prefix
    rwa [List.append_nil] at hnil
  induction h generalizing seen with
  | nil =>
    rw [List.append_nil]
    exact readFrom_atEnd hmarkers hseen hend
  | interrupted later ih =>
    rw [List.cons_append, readFrom_interrupted hmarkers hseen]
    exact ih hpart hseen
  | @bytes chunk bytes readings ne_nil later ih =>
    rw [List.cons_append, readFrom_bytes hmarkers hseen ne_nil, ← List.append_assoc]
    refine ih (fun part hprefix => ?_) (hpart chunk (List.prefix_append ..))
    rw [List.append_assoc]
    exact hpart _ ((List.prefix_append_right_inj chunk).mpr hprefix)

end

-- ---------------------------------------------------------------------------
-- Turn after turn
-- ---------------------------------------------------------------------------

/-- The answers to a number of attempts to read a turn, and the readings that are left. -/
def readTurns (markers : Markers) :
    Nat → List Reading → List (Except ExecutionError Turn) × List Reading
  | 0, readings => ([], readings)
  | count + 1, readings =>
    let (turn, readings) := markers.readTurn readings
    let (turns, readings) := readTurns markers count readings
    (turn :: turns, readings)

section

variable (hmarkers : markers.Visible)

include hmarkers

/-- Turns that arrive one after another, after some interruptions: those that come after one turn are met
before the next. -/
theorem readTurns_paused {turns : List (List UInt8)} {deliveries : List (List Reading)}
    (hturns : ∀ turn ∈ turns, markers.IsTurn turn)
    (hdeliveries : List.Forall₂ Delivers deliveries turns) {pause : List Reading}
    (hpause : ∀ reading ∈ pause, reading = .interrupted) :
    ∃ pause', (∀ reading ∈ pause', reading = .interrupted) ∧
      markers.readTurns turns.length (pause ++ (deliveries.flatten ++ rest)) =
        (turns.map fun turn => .ok (markers.turnOf turn), pause' ++ rest) := by
  induction hdeliveries generalizing pause with
  | nil => exact ⟨pause, hpause, rfl⟩
  | @cons delivery turn deliveries turns hdelivery _ ih =>
    obtain ⟨hturn, hturns⟩ := List.forall_mem_cons.mp hturns
    obtain ⟨pause₁, hpause₁, hread⟩ : ∃ pause₁, _ ∧
        markers.readFrom [] ((pause ++ delivery) ++ (deliveries.flatten ++ rest)) = _ :=
      readFrom_turn hmarkers (hdelivery.after hpause) hturn.endsIn fun _ => hturn.not_endsIn_part hmarkers
    obtain ⟨pause₂, hpause₂, hread₂⟩ := ih hturns hpause₁
    refine ⟨pause₂, hpause₂, ?_⟩
    rw [List.flatten_cons, List.append_assoc, ← List.append_assoc pause, List.length_cons, readTurns,
      readTurn, hread]
    dsimp only
    rw [hread₂]
    rfl

/-- However turns arrive, as long as no reading goes beyond the end of one, reading as often as there are
turns gives each of them whole, and leaves what comes after them. If the output ends then, after bytes
that are not a turn, the next attempt gives the error that has all of these bytes. -/
theorem readTurns_of_deliveries {turns : List (List UInt8)} {deliveries : List (List Reading)}
    (hturns : ∀ turn ∈ turns, markers.IsTurn turn)
    (hdeliveries : List.Forall₂ Delivers deliveries turns) (rest : List Reading) :
    ∃ pause, (∀ reading ∈ pause, reading = .interrupted) ∧
      markers.readTurns turns.length (deliveries.flatten ++ rest) =
        (turns.map fun turn => .ok (markers.turnOf turn), pause ++ rest) ∧
      ∀ further readings final, rest = readings ++ final → Delivers readings further → AtEnd final →
        (∀ part, part <+: further → part ≠ [] → ¬ markers.EndsIn part) →
        (markers.readTurn (pause ++ rest)).1 =
          .error (.terminated (String.ofList (Text.Utf8.decodeLossy further))) := by
  have hnone : ∀ reading ∈ ([] : List Reading), reading = .interrupted :=
    fun _ h => absurd h List.not_mem_nil
  obtain ⟨pause, hpause, hread⟩ := readTurns_paused hmarkers hturns hdeliveries hnone
  refine ⟨pause, hpause, hread, ?_⟩
  intro further readings final hrest hdelivers hend hpart
  rw [hrest, ← List.append_assoc]
  refine readFrom_ended hmarkers (hdelivers.after hpause) hend fun part hprefix => ?_
  by_cases hempty : part = []
  · rw [hempty]
    exact not_endsIn_nil hmarkers
  · exact hpart part hprefix hempty

end

/-- Two turns, the second with a character and a marker that are cut, and an end in the third. -/
theorem readTurns_of_deliveries_cut :
    ∃ pause, (∀ reading ∈ pause, reading = Reading.interrupted) ∧
      readTurns ⟨">>> ", "... "⟩ 2 [.bytes [0x3E, 0x3E], .bytes [0x3E, 0x20], .interrupted,
          .bytes [0xC3], .interrupted, .bytes [0xA9, 0x0A, 0x2E], .bytes [0x2E, 0x2E, 0x20],
          .bytes [0x3E], .bytes []] =
        ([.ok ⟨">>> ", .prompt⟩, .ok ⟨"é\n... ", .continuation⟩],
          pause ++ [.bytes [0x3E], .bytes []]) ∧
      (readTurn ⟨">>> ", "... "⟩ (pause ++ [.bytes [0x3E], .bytes []])).1 =
        .error (.terminated ">") := by
  have hfirst : Delivers [.bytes [0x3E, 0x3E], .bytes [0x3E, 0x20]] [0x3E, 0x3E, 0x3E, 0x20] :=
    .bytes (by decide) (.bytes (by decide) .nil)
  have hsecond : Delivers [.interrupted, .bytes [0xC3], .interrupted, .bytes [0xA9, 0x0A, 0x2E],
      .bytes [0x2E, 0x2E, 0x20]] [0xC3, 0xA9, 0x0A, 0x2E, 0x2E, 0x2E, 0x20] :=
    .interrupted (.bytes (by decide) (.interrupted (.bytes (by decide) (.bytes (by decide) .nil))))
  have hthird : Delivers [.bytes [0x3E]] [0x3E] := .bytes (by decide) .nil
  have hturns : ∀ turn ∈ [[0x3E, 0x3E, 0x3E, 0x20], [0xC3, 0xA9, 0x0A, 0x2E, 0x2E, 0x2E, 0x20]],
      IsTurn ⟨">>> ", "... "⟩ turn := by
    decide +kernel
  have hpart : ∀ part, part <+: [0x3E] → part ≠ [] → ¬ EndsIn ⟨">>> ", "... "⟩ part := by
    intro part hprefix hne
    obtain rfl | rfl := List.mem_pair.mp ((List.mem_inits ..).mpr hprefix)
    · exact absurd rfl hne
    · decide +kernel
  obtain ⟨pause, hpause, hread, hended⟩ := @readTurns_of_deliveries ⟨">>> ", "... "⟩
    ⟨by decide, by decide⟩ _ _ hturns (.cons hfirst (.cons hsecond .nil)) [.bytes [0x3E], .bytes []]
  refine ⟨pause, hpause, hread.trans ?_, ?_⟩
  · have hprompt : turnOf ⟨">>> ", "... "⟩ [0x3E, 0x3E, 0x3E, 0x20] = ⟨">>> ", .prompt⟩ :=
      congrArg₂ Turn.mk (by decide +kernel) (if_pos (by decide +kernel))
    have hcontinuation : turnOf ⟨">>> ", "... "⟩ [0xC3, 0xA9, 0x0A, 0x2E, 0x2E, 0x2E, 0x20] =
        ⟨"é\n... ", .continuation⟩ :=
      congrArg₂ Turn.mk (by decide +kernel) (if_neg (by decide +kernel))
    rw [List.map_cons, List.map_cons, List.map_nil, hprompt, hcontinuation]
  · have htext : String.ofList (Text.Utf8.decodeLossy [0x3E]) = ">" := by decide +kernel
    rw [← htext]
    exact hended [0x3E] [.bytes [0x3E]] [.bytes []] rfl hthird trivial hpart

end Markers

end Literate
