import Literate.Execution.Session
import Literate.Proofs.Execution.Effect
import Literate.Proofs.Execution.Turns
import Literate.Proofs.Text.Utf8

/-!
# Lines and their turns

A session works line by line: it sends one, reads the turn that answers it, and only then sends the next.
What it puts together from the turns comes later, so a run is a conversation (`converse`) with something
made of it. How the turns come about is left to the child. A child that puts out one turn for every line,
and nothing else, is one whose turns are read (`Answers`).

Main results:

* `run_batch`: running a batch is a conversation over its lines, and the shape of what came of it.
* `sent_converse`, `length_converse`: all lines were sent, each with a line feed, and a turn was read for
  each.
* `Answers.converse`: from a child that answers every line with a turn these turns are read.
* `converse_answering`: any turns can answer lines.
-/

namespace Literate

theorem Indentation.normalize_singleton (line : String) : normalize [line] = [line] := by
  rw [normalize, normalizeFrom]
  split <;> rfl

/-- What lines and the turns that answer them add to a transcript. -/
def Transcript.answered (lines : List String) (turns : List Turn) : List Char :=
  (lines.zip turns).flatMap fun (line, turn) =>
    line.toList ++ '\n' :: dropFirstBreak turn.text.toList

/-- A program that answers the lines that come in with texts, one after another. -/
def Program.answering (texts : List String) : Program := fun input =>
  ⟨Text.Utf8.encode ((texts.take (input.count 0x0A)).flatMap String.toList), true⟩

namespace Session

/-- Sends lines one at a time, and reads the turn that answers each. -/
def converse : List String → Effect Session (List Turn)
  | [] => return []
  | line :: lines => do
    send line
    let turn ← readTurn
    let turns ← converse lines
    return turn :: turns

/-- A session after a line was sent. -/
def told (session : Session) (line : String) : Session :=
  { session with child := session.child.send (Text.Utf8.encode (line.toList ++ ['\n'])) }

/-- A session after all that its child had put out was read. -/
def caughtUp (session : Session) : Session :=
  { session with child := session.child.readAllBut 0 }

/-- A session with a program that answers with texts. -/
def answering (markers : Markers) (texts : List String) : Session :=
  ⟨.start (Program.answering texts), markers⟩

variable {session session' : Session} {line : String} {lines : List String} {turns : List Turn}
  {batch : Batch}

theorem exchange_eq (transcript : List Char) (lines : List String) :
    exchange transcript lines = do
      let turns ← converse lines
      return transcript ++ Transcript.answered lines turns := by
  induction lines generalizing transcript with
  | nil => simp [exchange, converse, Transcript.answered]
  | cons line lines ih =>
    simp only [exchange, converse, ih, bind_assoc, pure_bind, Transcript.answered, List.zip_cons_cons,
      List.flatMap_cons, List.append_assoc, List.cons_append]

/-- Running a batch is a conversation over its lines, and the shape of what came of it. -/
theorem run_batch (batch : Batch) (session : Session) :
    (run batch).run session = (do
      let turns ← converse (Indentation.normalize batch.lines)
      return Transcript.shape session.markers batch.echo batch.repl (String.ofList
        (session.markers.prompt.toList ++
          Transcript.answered (Indentation.normalize batch.lines) turns))).run session := by
  have hget : (run batch).run session = (do
      let transcript ← exchange session.markers.prompt.toList (Indentation.normalize batch.lines)
      return Transcript.shape session.markers batch.echo batch.repl (String.ofList transcript)).run
        session := rfl
  rw [hget, exchange_eq, bind_assoc]
  simp only [pure_bind]

/-- Lines are answered, and what comes of the batch is the shape of their transcript. -/
theorem run_batch_ok
    (h : (converse (Indentation.normalize batch.lines)).run session = (.ok turns, session')) :
    (run batch).run session =
      (.ok (Transcript.shape session.markers batch.echo batch.repl (String.ofList
        (session.markers.prompt.toList ++
          Transcript.answered (Indentation.normalize batch.lines) turns))), session') := by
  rw [run_batch, Effect.run_bind_ok h]
  rfl

-- ---------------------------------------------------------------------------
-- One line
-- ---------------------------------------------------------------------------

theorem run_send (line : String) (session : Session) :
    (send line).run session =
      if session.child.isGone then (.error (.terminated ""), session)
      else (.ok (), session.told line) := by
  show (if session.child.isGone then _ else _ : Effect Session Unit) session = _
  split <;> rfl

theorem run_readTurn (session : Session) :
    readTurn.run session =
      ((session.markers.readTurn (readingsOf session.child.unread)).1,
        { session with
          child := session.child.readAllBut
            (bytesIn (session.markers.readTurn (readingsOf session.child.unread)).2) }) :=
  rfl

/-- A line is answered, and then the others are sent. -/
theorem run_converse_cons (hgone : session.child.isGone = false) {turn : Turn} {middle : Session}
    (hread : readTurn.run (session.told line) = (.ok turn, middle)) :
    (converse (line :: lines)).run session =
      (do let turns ← converse lines; return turn :: turns).run middle := by
  have hsend : (send line).run session = (.ok (), session.told line) := by
    rw [run_send, hgone]
    rfl
  rw [converse, Effect.run_bind_ok hsend, Effect.run_bind_ok hread]

/-- Where all lines were answered, the first was, and the others after it. -/
theorem of_converse_cons (h : (converse (line :: lines)).run session = (.ok turns, session')) :
    ∃ turn rest middle, session.child.isGone = false ∧
      readTurn.run (session.told line) = (.ok turn, middle) ∧
      (converse lines).run middle = (.ok rest, session') ∧ turns = turn :: rest := by
  have hgone : session.child.isGone = false := by
    by_contra hgone
    rw [Bool.not_eq_false] at hgone
    have hsend : (send line).run session = (.error (.terminated ""), session) := by
      rw [run_send, hgone]
      rfl
    rw [converse, Effect.run_bind_error hsend] at h
    cases h
  rcases hread : readTurn.run (session.told line) with ⟨error | turn, middle⟩
  · have hsend : (send line).run session = (.ok (), session.told line) := by
      rw [run_send, hgone]
      rfl
    rw [converse, Effect.run_bind_ok hsend, Effect.run_bind_error hread] at h
    cases h
  · rw [run_converse_cons hgone hread, Effect.run_bind] at h
    rcases hrest : (converse lines).run middle with ⟨error | rest, last⟩
    · rw [hrest] at h
      cases h
    · rw [hrest] at h
      cases h
      exact ⟨turn, rest, middle, hgone, rfl, hrest, rfl⟩

-- ---------------------------------------------------------------------------
-- All lines
-- ---------------------------------------------------------------------------

/-- As many turns are read as there are lines. -/
theorem length_converse (h : (converse lines).run session = (.ok turns, session')) :
    turns.length = lines.length := by
  induction lines generalizing session turns with
  | nil => cases h; rfl
  | cons line lines ih =>
    obtain ⟨turn, rest, middle, -, -, hrest, rfl⟩ := of_converse_cons h
    rw [List.length_cons, List.length_cons, ih hrest]

/-- Every line is sent, with a line feed behind it. -/
theorem sent_converse (h : (converse lines).run session = (.ok turns, session')) :
    session'.child.sent =
      session.child.sent ++ Text.Utf8.encode (lines.flatMap fun line => line.toList ++ ['\n']) := by
  induction lines generalizing session turns with
  | nil => cases h; exact (List.append_nil _).symm
  | cons line lines ih =>
    obtain ⟨turn, rest, middle, -, hread, hrest, rfl⟩ := of_converse_cons h
    have hsent : middle.child.sent = (session.told line).child.sent := by
      rw [run_readTurn] at hread
      rw [← (Prod.mk.inj hread).2]
      rfl
    rw [ih hrest, hsent, List.flatMap_cons, Text.Utf8.encode_append, ← List.append_assoc]
    rfl

-- ---------------------------------------------------------------------------
-- Children that answer in turns
-- ---------------------------------------------------------------------------

open Reading (Delivers)

theorem delivers_readingsOf (bytes : List UInt8) : Delivers (readingsOf bytes) bytes := by
  induction bytes using readingsOf.induct with
  | case1 bytes hempty =>
    rw [readingsOf, dif_pos hempty, List.isEmpty_iff.mp hempty]
    exact .nil
  | case2 bytes hempty ih =>
    have hne : bytes.take Reading.limit ≠ [] := by
      simpa [Reading.limit] using hempty
    rw [readingsOf, dif_neg hempty]
    have hsplit := Delivers.bytes hne ih
    rwa [List.take_append_drop] at hsplit

theorem bytesIn_of_interrupted {readings : List Reading}
    (h : ∀ reading ∈ readings, reading = .interrupted) : bytesIn readings = 0 := by
  induction readings with
  | nil => rfl
  | cons reading readings ih =>
    obtain ⟨rfl, hrest⟩ := List.forall_mem_cons.mp h
    rw [bytesIn, ih hrest]
    exact fun _ h => Reading.noConfusion h

/-- A child has put out one turn: this turn is read, and nothing is left. -/
theorem run_readTurn_of_unread (hmarkers : session.markers.Visible) {turn : List Char}
    (hturn : session.markers.IsTurn (Text.Utf8.encode turn))
    (hunread : session.child.unread = Text.Utf8.encode turn) :
    readTurn.run session =
      (.ok (session.markers.turnOf (Text.Utf8.encode turn)), session.caughtUp) := by
  obtain ⟨pause, hpause, hread⟩ : ∃ pause, (∀ reading ∈ pause, reading = .interrupted) ∧
      session.markers.readFrom [] (readingsOf (Text.Utf8.encode turn) ++ []) = (_, pause ++ []) :=
    Markers.readFrom_turn hmarkers (delivers_readingsOf _) hturn.endsIn
      fun _ => hturn.not_endsIn_part hmarkers
  rw [List.append_nil, List.append_nil, List.nil_append] at hread
  rw [run_readTurn, hunread, Markers.readTurn, hread, bytesIn_of_interrupted hpause, caughtUp]

/-- Sessions whose child answers each of some lines with one turn, given by its text. -/
inductive Answers : Session → List String → List String → Session → Prop where
  | nil {session : Session} : Answers session [] [] session
  | cons {session last : Session} {line turn : String} {lines turns : List String}
      (waits : session.child.isGone = false)
      (isTurn : session.markers.IsTurn (Text.Utf8.encode turn.toList))
      (unread : (session.told line).child.unread = Text.Utf8.encode turn.toList)
      (later : Answers (session.told line).caughtUp lines turns last) :
      Answers session (line :: lines) (turn :: turns) last

/-- From a child that answers every line with a turn these turns are read. -/
theorem Answers.converse {texts : List String} (h : Answers session lines texts session')
    (hmarkers : session.markers.Visible) :
    ∃ turns, (Session.converse lines).run session = (.ok turns, session') ∧
      turns.map Turn.text = texts := by
  induction h with
  | nil => exact ⟨[], rfl, rfl⟩
  | @cons session last line text lines texts waits isTurn unread later ih =>
    obtain ⟨turns, hlater, rfl⟩ := ih hmarkers
    have hread := @run_readTurn_of_unread (session.told line) hmarkers _ isTurn unread
    refine ⟨session.markers.turnOf (Text.Utf8.encode text.toList) :: turns, ?_, ?_⟩
    · rw [run_converse_cons waits hread, Effect.run_bind_ok hlater]
      rfl
    · rw [List.map_cons, Markers.turnOf, Text.Utf8.decodeLossy_encode, String.ofList_toList]

/-- With a line one line feed more is sent, so a program that gives one text for each puts out one text more,
and that is what there is to read. -/
theorem told_answering {given texts : List String} {line text : String} {session : Session}
    (hprogram : session.child.program = Program.answering (given ++ text :: texts))
    (hsent : session.child.sent.count 0x0A = given.length)
    (htaken : session.child.taken = (Text.Utf8.encode (given.flatMap String.toList)).length)
    (hline : '\n' ∉ line.toList) :
    (session.told line).child.sent.count 0x0A = (given ++ [text]).length ∧
      (session.told line).child.progress.output =
        Text.Utf8.encode ((given ++ [text]).flatMap String.toList) ∧
      (session.told line).child.unread = Text.Utf8.encode text.toList := by
  have hcount : (session.told line).child.sent.count 0x0A = (given ++ [text]).length := by
    have htold : (session.told line).child.sent =
      session.child.sent ++ Text.Utf8.encode (line.toList ++ ['\n']) := rfl
    rw [htold, List.count_append, hsent, Text.Utf8.count_feed_encode, List.count_append,
      List.count_eq_zero.mpr hline, List.length_append]
    rfl
  have houtput : (session.told line).child.progress.output =
      Text.Utf8.encode ((given ++ [text]).flatMap String.toList) := by
    have hprogress : (session.told line).child.progress =
      session.child.program (session.told line).child.sent := rfl
    rw [hprogress, hprogram, Program.answering, hcount, List.append_cons given text texts,
      List.take_left]
  refine ⟨hcount, houtput, ?_⟩
  have htakenTold : (session.told line).child.taken = session.child.taken := rfl
  rw [Child.unread, houtput, htakenTold, htaken, List.flatMap_append, Text.Utf8.encode_append,
    List.drop_left, List.flatMap_singleton]

/-- Where some of the texts were given and read, the others are what the next lines are answered with. -/
theorem answers_of_given {given lines texts : List String} {session : Session}
    (hprogram : session.child.program = Program.answering (given ++ texts))
    (hsent : session.child.sent.count 0x0A = given.length)
    (htaken : session.child.taken = (Text.Utf8.encode (given.flatMap String.toList)).length)
    (hlength : lines.length = texts.length) (hlines : ∀ line ∈ lines, '\n' ∉ line.toList)
    (hturns : ∀ text ∈ texts, session.markers.IsTurn (Text.Utf8.encode text.toList)) :
    ∃ last, Answers session lines texts last := by
  induction lines generalizing given texts session with
  | nil =>
    rw [List.eq_nil_of_length_eq_zero hlength.symm]
    exact ⟨session, .nil⟩
  | cons line lines ih =>
    rcases texts with _ | ⟨text, texts⟩
    · cases hlength
    obtain ⟨hline, hlines⟩ := List.forall_mem_cons.mp hlines
    obtain ⟨hturn, hturns⟩ := List.forall_mem_cons.mp hturns
    obtain ⟨hcount, houtput, hunread⟩ := told_answering hprogram hsent htaken hline
    have htaken' : (session.told line).caughtUp.child.taken =
        (Text.Utf8.encode ((given ++ [text]).flatMap String.toList)).length := by
      rw [← houtput]
      rfl
    have hgiven : given ++ text :: texts = (given ++ [text]) ++ texts := List.append_cons given text texts
    obtain ⟨last, hlast⟩ := @ih (given ++ [text]) texts (session.told line).caughtUp
      (hprogram.trans (congrArg Program.answering hgiven)) hcount htaken' (Nat.succ.inj hlength) hlines hturns
    have hwaits : session.child.isGone = false := by
      rw [Child.isGone, Child.progress, hprogram]
      rfl
    exact ⟨last, .cons hwaits hturn hunread hlast⟩

/-- For all lines and as many turns there is a session in which the turns answer the lines. -/
theorem converse_answering {markers : Markers} {texts : List String} (hmarkers : markers.Visible)
    (hlength : lines.length = texts.length) (hlines : ∀ line ∈ lines, '\n' ∉ line.toList)
    (hturns : ∀ text ∈ texts, markers.IsTurn (Text.Utf8.encode text.toList)) :
    ∃ turns session', (converse lines).run (answering markers texts) = (.ok turns, session') ∧
      turns.map Turn.text = texts := by
  obtain ⟨last, hlast⟩ :=
    @answers_of_given [] lines texts (answering markers texts) rfl rfl rfl hlength hlines hturns
  obtain ⟨turns, hturns, htexts⟩ := hlast.converse hmarkers
  exact ⟨turns, last, hturns, htexts⟩

end Session

end Literate
