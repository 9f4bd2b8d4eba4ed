import Literate.Proofs.Execution.Conversation
import Literate.Proofs.Execution.Recording
import Literate.Proofs.Text.Lines

/-!
# One line, one turn

A session reads one turn for every line that it is given to run, and an interpreter gives one for every
line feed that it is sent. The two counts agree as long as no line has a line feed in it. Code blocks are
cut into lines before they are run, and what the call of a shorthand may hold is on one line with its name.
The text of a code span and of a fragment is taken as it stands. So whether the counts agree is a
property of the document: that its code spans and fragments are each on one line (`OneLine`).

Main results:

* `Dispatch.oneLine_iff`: what a node asks to be run has no line feed in a line exactly if it is so.
* `Session.inStep_of_run`: after a batch of such lines was run, as many line feeds were sent as turns were
  read.
* `lines_run_in_step`: for a document as a whole.
-/

namespace Literate

-- ---------------------------------------------------------------------------
-- What a node asks to be run
-- ---------------------------------------------------------------------------

/-- Whether no line of a batch has a line feed in it. -/
def Batch.OneLine (batch : Batch) : Prop :=
  ∀ line ∈ batch.lines, '\n' ∉ line.toList

instance (batch : Batch) : Decidable batch.OneLine :=
  inferInstanceAs (Decidable (∀ line ∈ batch.lines, '\n' ∉ line.toList))

theorem Batch.oneLine_expression {code : String} :
    (Batch.expression code).OneLine ↔ '\n' ∉ code.toList :=
  List.forall_mem_singleton

namespace Dispatch

variable {shorthands : List String} {text : String} {node : Node}

/-- Whether the code that a node has to run, if it is a span or a fragment, is on one line. -/
def OneLine (shorthands : List String) : Node → Prop
  | .inline (.code attr text) =>
    attr.hasClass "noexec" = false → isShorthand shorthands text ∨ attr.hasClass "python" →
      '\n' ∉ text.toList
  | .inline (.math _ text) => ∀ fragment ∈ fragment? text, '\n' ∉ fragment.code
  | .inline (.image dest _ _) =>
    ∀ fragment ∈ fragment? (Text.Percent.decode dest), '\n' ∉ fragment.code
  | _ => True

/-- The lines of a code block are lines. -/
theorem oneLine_blockLines (text : String) (echo repl : Bool) :
    Batch.OneLine ⟨blockLines text, echo, repl⟩ := by
  intro line hline
  have hlines : line ∈ Text.lines text ∨ line = "" := by
    have hmem : line ∈ Indentation.closeSuite (Text.lines text) := hline
    rw [Indentation.closeSuite] at hmem
    split at hmem
    · rwa [List.mem_append, List.mem_singleton] at hmem
    · exact .inl hmem
  rcases hlines with hlines | rfl
  · exact Text.notMem_of_mem_lines hlines
  · exact List.not_mem_nil

/-- The call of a shorthand is on one line if the name is. -/
theorem notMem_feed_of_isShorthand (hnames : ∀ name ∈ shorthands, '\n' ∉ name.toList)
    (h : isShorthand shorthands text = true) : '\n' ∉ text.toList := by
  rw [isShorthand, List.any_eq_true] at h
  obtain ⟨name, hname, hcall⟩ := h
  obtain ⟨argument, hargument, htext⟩ := isCallOf_iff.mp hcall
  rw [htext]
  simp [hnames name hname, hargument]

theorem oneLine_map_fragmentBatch {found : Option Fragment} :
    (∀ batch ∈ found.map fragmentBatch, batch.OneLine) ↔ ∀ fragment ∈ found, '\n' ∉ fragment.code := by
  cases found with
  | none => simp
  | some fragment => simp [fragmentBatch, Batch.oneLine_expression]

/-- What a node asks to be run has no line feed in a line exactly if code that is no block is on one. -/
theorem oneLine_iff : OneLine shorthands node ↔ ∀ batch ∈ batch? shorthands node, batch.OneLine := by
  have hnone : batch? shorthands node = none → ∀ batch ∈ batch? shorthands node, batch.OneLine := by
    intro hbatch batch hmem
    rw [hbatch] at hmem
    cases hmem
  rcases node with block | inline | value
  · cases block with
    | codeBlock attr text =>
      -- The text of a block is cut into its lines before it is run.
      refine iff_of_true trivial ?_
      rw [batch?]
      split
      · exact fun batch hmem => by cases hmem
      · rintro batch ⟨⟩
        exact oneLine_blockLines text _ _
    | _ => exact iff_of_true trivial (hnone rfl)
  · cases inline with
    | code attr text =>
      rw [OneLine, batch?]
      -- Code in a span is run as it stands, if it is run.
      by_cases hnoexec : attr.hasClass "noexec" = true
      · simp [hnoexec]
      by_cases hruns : (isShorthand shorthands text || attr.hasClass "python") = true
      · have hruns' := hruns
        rw [Bool.or_eq_true] at hruns'
        rw [if_neg hnoexec, if_pos hruns]
        simp [hnoexec, hruns', Batch.oneLine_expression]
      · have hruns' := hruns
        rw [Bool.or_eq_true] at hruns'
        rw [if_neg hnoexec, if_neg hruns]
        simp [hruns']
    | math display text => exact oneLine_map_fragmentBatch.symm
    | image dest title alt => exact oneLine_map_fragmentBatch.symm
    | _ => exact iff_of_true trivial (hnone rfl)
  · exact iff_of_true trivial (hnone rfl)

end Dispatch

-- ---------------------------------------------------------------------------
-- Turns and line feeds
-- ---------------------------------------------------------------------------

namespace Indentation

theorem length_normalizeFrom (current : Nat) (lines : List String) :
    (normalizeFrom current lines).length = lines.length := by
  fun_induction normalizeFrom current lines with
  | case1 => rfl
  | case2 current line lines _ ih => rw [List.length_cons, List.length_cons, ih]
  | case3 current line lines _ ih => rw [List.length_cons, List.length_cons, ih]

/-- Only blanks come into lines. -/
theorem notMem_feed_normalizeFrom {current : Nat} {lines : List String}
    (h : ∀ line ∈ lines, '\n' ∉ line.toList) :
    ∀ line ∈ normalizeFrom current lines, '\n' ∉ line.toList := by
  fun_induction normalizeFrom current lines with
  | case1 => exact h
  | case2 current line lines _ ih =>
    obtain ⟨hline, hlines⟩ := List.forall_mem_cons.mp h
    refine List.forall_mem_cons.mpr ⟨?_, ih hlines⟩
    split
    · exact hline
    · rw [Text.repeated, String.toList_ofList]
      exact fun hmem => absurd (List.eq_of_mem_replicate hmem) (by decide)
  | case3 current line lines _ ih =>
    obtain ⟨hline, hlines⟩ := List.forall_mem_cons.mp h
    exact List.forall_mem_cons.mpr ⟨hline, ih hlines⟩

end Indentation

namespace Session

variable {session session' : Session} {lines : List String} {turns : List Turn} {batch : Batch}
  {answer code : String}

/-- Whether as many line feeds were sent between two states of a session as turns were read. -/
def InStep (session session' : Session) (turns : List Turn) : Prop :=
  session'.child.sent.count 0x0A = session.child.sent.count 0x0A + turns.length

theorem count_feed_flatMap (lines : List String) :
    (lines.flatMap fun line => line.toList ++ ['\n']).count '\n' =
      lines.length + (lines.flatMap String.toList).count '\n' := by
  induction lines with
  | nil => rfl
  | cons line lines ih =>
    rw [List.flatMap_cons, List.flatMap_cons, List.count_append, List.count_append, List.count_append, ih,
      List.length_cons, List.count_singleton_self]
    omega

/-- Turns and line feeds are as many exactly if no line has a line feed in it. -/
theorem inStep_converse_iff (h : (converse lines).run session = (.ok turns, session')) :
    InStep session session' turns ↔ ∀ line ∈ lines, '\n' ∉ line.toList := by
  have hcount : session'.child.sent.count 0x0A = session.child.sent.count 0x0A +
      (turns.length + (lines.flatMap String.toList).count '\n') := by
    rw [sent_converse h, List.count_append, Text.Utf8.count_feed_encode, count_feed_flatMap,
      length_converse h]
  have hzero : (lines.flatMap String.toList).count '\n' = 0 ↔ ∀ line ∈ lines, '\n' ∉ line.toList := by
    rw [List.count_eq_zero, List.mem_flatMap]
    simp
  rw [InStep, hcount, ← hzero]
  omega

/-- A batch was run: a turn was read for each of its lines, and if no line has a line feed in it, for each
line feed that was sent. An expression with a line feed in it sends more. -/
theorem inStep_of_run (h : (run batch).run session = (.ok answer, session')) :
    ∃ turns, (converse (Indentation.normalize batch.lines)).run session = (.ok turns, session') ∧
      turns.length = batch.lines.length ∧ (batch.OneLine → InStep session session' turns) ∧
      ∀ code, batch = .expression code → InStep session session' turns → batch.OneLine := by
  obtain ⟨turns, hconverse⟩ : ∃ turns,
      (converse (Indentation.normalize batch.lines)).run session = (.ok turns, session') := by
    rw [run_batch, Effect.run_bind] at h
    rcases hconverse : (converse (Indentation.normalize batch.lines)).run session with
      ⟨error | turns, last⟩
    · rw [hconverse] at h
      cases h
    · rw [hconverse] at h
      cases h
      exact ⟨turns, rfl⟩
  have hstep := inStep_converse_iff hconverse
  refine ⟨turns, hconverse, ?_, fun hlines => ?_, ?_⟩
  · rw [length_converse hconverse, Indentation.normalize, Indentation.length_normalizeFrom]
  · exact hstep.mpr (Indentation.notMem_feed_normalizeFrom hlines)
  · rintro code rfl hcount
    have hlines := hstep.mp hcount
    rwa [Batch.expression, Indentation.normalize_singleton] at hlines

end Session

-- ---------------------------------------------------------------------------
-- All that a document runs
-- ---------------------------------------------------------------------------

variable {σ : Type} (limit : PatternLimit) (launcher : Launcher σ) (shorthands : List String)
  (d : Document) (state : σ)

/-- What an execution runs is what its document plans, all of it if no call fails before the end. -/
theorem batches_callsOf :
    Call.batches (callsOf limit launcher shorthands d state) <+: d.plan shorthands ∧
      (launcher.preflight = .ok () → compileShorthands limit shorthands = .ok () →
        (∀ call ∈ callsOf limit launcher shorthands d state,
          call.request ≠ .close → call.failure = none) →
        Call.batches (callsOf limit launcher shorthands d state) = d.plan shorthands) := by
  obtain ⟨error, hstop, -, hcalls⟩ | ⟨-, -, result, made, closed, closing, hmade, hshut, -, hcalls⟩ :=
    executeUnder_makes limit launcher shorthands d state
  · rw [hcalls]
    refine ⟨List.nil_prefix, fun hpreflight hcompile => ?_⟩
    rw [hpreflight, hcompile] at hstop
    rcases hstop with hstop | hstop <;> cases hstop
  · have hbatches : Call.batches (callsOf limit launcher shorthands d state) = Call.batches made := by
      rw [hcalls, Call.batches_append, Call.batches, Call.batches, hshut.runs_eq_nil, List.map_nil,
        List.append_nil]
    rw [hbatches]
    refine ⟨hmade.runs_prefix, fun _ _ hall => hmade.all_run fun call hcall => hall call ?_⟩
    exact hcalls ▸ List.mem_append_left _ hcall

theorem oneLine_plan_iff {shorthands : List String} {d : Document} :
    (∀ batch ∈ d.plan shorthands, batch.OneLine) ↔
      ∀ node ∈ d.postOrder, Dispatch.OneLine shorthands node := by
  constructor
  · intro hplan node hnode
    exact Dispatch.oneLine_iff.mpr fun batch hbatch =>
      hplan batch (List.mem_filterMap.mpr ⟨node, hnode, hbatch⟩)
  · intro hnodes batch hbatch
    obtain ⟨node, hnode, hbatch⟩ := List.mem_filterMap.mp hbatch
    exact Dispatch.oneLine_iff.mp (hnodes node hnode) batch hbatch

/-- The lines that an execution runs have no line feed in them if the code spans and fragments of its
document are each on one line, and only then if it comes to its end. Calls of shorthands are on one line
with their names. Of such lines a session reads as many turns as it sends line feeds, and of an expression
with a line feed in it fewer. -/
theorem lines_run_in_step :
    ((∀ node ∈ d.postOrder, Dispatch.OneLine shorthands node) →
      ∀ batch ∈ Call.batches (callsOf limit launcher shorthands d state), batch.OneLine) ∧
    (launcher.preflight = .ok () → compileShorthands limit shorthands = .ok () →
      (∀ call ∈ callsOf limit launcher shorthands d state,
        call.request ≠ .close → call.failure = none) →
      (∀ batch ∈ Call.batches (callsOf limit launcher shorthands d state), batch.OneLine) →
      ∀ node ∈ d.postOrder, Dispatch.OneLine shorthands node) ∧
    ((∀ name ∈ shorthands, '\n' ∉ name.toList) →
      ∀ text, Dispatch.isShorthand shorthands text = true → '\n' ∉ text.toList) ∧
    ∀ (session session' : Session) (batch : Batch) (answer : String),
      (Session.run batch).run session = (.ok answer, session') →
      ∃ turns,
        (Session.converse (Indentation.normalize batch.lines)).run session = (.ok turns, session') ∧
        turns.length = batch.lines.length ∧ (batch.OneLine → session.InStep session' turns) ∧
        ∀ code, batch = .expression code → session.InStep session' turns → batch.OneLine := by
  obtain ⟨hbegins, hall⟩ := batches_callsOf limit launcher shorthands d state
  refine ⟨fun hnodes batch hbatch => ?_, fun hpreflight hcompile hcalls hlines => ?_,
    fun hnames text => Dispatch.notMem_feed_of_isShorthand hnames,
    fun session session' batch answer => Session.inStep_of_run⟩
  · exact oneLine_plan_iff.mpr hnodes batch (hbegins.subset hbatch)
  · rw [hall hpreflight hcompile hcalls] at hlines
    exact oneLine_plan_iff.mp hlines

/-- A launcher whose calls all succeed, and give nothing. -/
def Launcher.silent : Launcher Unit where
  preflight := .ok ()
  launch := pure ()
  run _ := pure ""
  close := pure ()

/-- A document with code in a block, a span and a formula. -/
def Document.codes : Document where
  metadata := []
  blocks := [.codeBlock (.ofClasses ["python"]) "for i in a:\n    f(i)\n",
    .paragraph [.code .empty "pq(1)", .math false "`1+1`{.python}"]]

/-- A document with a formula that has code on two lines in it. -/
def Document.twoLines : Document where
  metadata := []
  blocks := [.paragraph [.math false "`a\nb`{.python}"]]

theorem plan_codes : Document.codes.plan ["pq"] =
    [⟨["for i in a:", "    f(i)", ""], false, false⟩, .expression "pq(1)", .expression "1+1"] := by
  cbv

theorem plan_twoLines : Document.twoLines.plan [] = [.expression "a\nb"] := by
  cbv

theorem lines_run_in_step_codes :
    (∀ batch ∈ Call.batches (callsOf (fun _ => none) .silent ["pq"] .codes ()), batch.OneLine) ∧
      (∀ node ∈ Document.codes.postOrder, Dispatch.OneLine ["pq"] node) ∧ '\n' ∉ "pq(1)".toList ∧
      ∃ turns session', (Session.converse ["pq(1)"]).run
          (.answering ⟨">>> ", "... "⟩ ["2\n>>> "]) = (.ok turns, session') ∧
        (Session.answering ⟨">>> ", "... "⟩ ["2\n>>> "]).InStep session' turns := by
  obtain ⟨hlines, hnodes, hcalls, hturns⟩ :=
    lines_run_in_step (fun _ => none) .silent ["pq"] .codes ()
  have hplan : ∀ node ∈ Document.codes.postOrder, Dispatch.OneLine ["pq"] node := by
    refine oneLine_plan_iff.mp ?_
    rw [plan_codes]
    decide +kernel
  have hsilent : callsOf (fun _ => none) Launcher.silent ["pq"] .codes () =
      [⟨.launch, none⟩, ⟨.run ⟨["for i in a:", "    f(i)", ""], false, false⟩, none⟩,
        ⟨.run (.expression "pq(1)"), none⟩, ⟨.run (.expression "1+1"), none⟩, ⟨.close, none⟩] := by
    rw [callsOf_eq, forget_executeUnder, plan_codes]
    rfl
  obtain ⟨turns, session', hconverse, -⟩ := @Session.converse_answering ["pq(1)"] ⟨">>> ", "... "⟩
    ["2\n>>> "] ⟨by decide, by decide⟩ rfl (by decide +kernel) (by decide +kernel)
  have hrun := @Session.run_batch_ok _ session' turns (.expression "pq(1)")
    (by rwa [Batch.expression, Indentation.normalize_singleton])
  obtain ⟨turns', hconverse', -, hstep, -⟩ := hturns _ _ _ _ hrun
  rw [Batch.expression, Indentation.normalize_singleton] at hconverse'
  refine ⟨hlines hplan, hnodes rfl rfl ?_ (hlines hplan), hcalls (by decide) "pq(1)" (by decide +kernel),
    turns', session', hconverse', hstep (by decide +kernel)⟩
  rw [hsilent]
  decide +kernel

/-- Not all that is run is on one line: the code in a formula has the line feeds that the formula has. -/
theorem lines_run_twoLines :
    Call.batches (callsOf (fun _ => none) Launcher.silent [] .twoLines ()) = [.expression "a\nb"] ∧
      ¬ (Batch.expression "a\nb").OneLine := by
  refine ⟨?_, by decide +kernel⟩
  rw [callsOf_eq, forget_executeUnder, plan_twoLines]
  rfl

end Literate
