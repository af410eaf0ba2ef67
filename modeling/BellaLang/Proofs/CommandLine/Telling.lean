import BellaLang.Proofs.Execution.AtWork
import BellaLang.Proofs.Execution.Atomicity
import BellaLang.Proofs.Execution.OfText
import BellaLang.Proofs.Grammar.Faults
import BellaLang.Proofs.Text.Decoding

/-!
What a session tells about the file it is given.

A session that is given a readable file reads its text and, unless it is only to check it, runs the
program.  There are three ways to fail: the text is no program, the program fails, or its calls nest
too deep.  A transcript that tells the truth about that (`Transcript.IsTrue`) has the log of the run
as its output, also up to a failure; its status is zero exactly if all went well; and otherwise it
complains of one issue, and that is the right one.

A session tells the truth unless a failure is beyond telling (`Program.FailsBeyondTelling`).  For a
failure is told with the calls that it left and the values of their parameters, and a value may nest
deeper than the host can show.  Nothing sees to that: the session is cut short in the middle of
telling, with neither an issue nor a status.

  1. What is written is lines, and complaints are told in lines as well (`IsLines`, `IsComplaint`).
  2. What the listener gets in a run is what the log has in the end (`Program.echoed_outcome`).
  3. The program of a text comes to its end or stops for a reason that can be told, unless it fails
     beyond telling or goes on forever (`Program.outcome_cases`).
  4. What is made of a text in each of these cases (`processText_isTrue`,
     `processText_of_beyondTelling`).

Main statement: `session_tells_truth_iff`.
-/

namespace BellaLang

/-! ## Lines -/

/-- The text consists of these lines, each with its end. -/
def IsLines (text : String) (lines : List String) : Prop :=
  text.toList = lines.flatMap fun line => line.toList ++ ['\n']

namespace IsLines

variable {text text' : String} {lines lines' : List String}

theorem empty : IsLines "" [] := rfl

theorem append (h : IsLines text lines) (h' : IsLines text' lines') :
    IsLines (text ++ text') (lines ++ lines') := by
  unfold IsLines at *
  rw [String.toList_append, h, h', List.flatMap_append]

theorem single (line : String) : IsLines (line ++ "\n") [line] := by simp [IsLines]

/-- Text without line ends between the lines, and one at the end. -/
theorem intercalate (first : String) (rest : List String) :
    IsLines ("\n".intercalate (first :: rest) ++ "\n") (first :: rest) := by
  induction rest generalizing first with
  | nil => exact single first
  | cons second rest ih =>
    rw [String.intercalate_cons_cons, String.append_assoc]
    exact (single first).append (ih second)

end IsLines

/-- Progress is told in one line, if it is told. -/
theorem Report.info_isLines (verbose : Bool) (words : List String) :
    IsLines ((Report.new verbose).info words)
      (if verbose then [" ".intercalate words] else []) := by
  cases verbose with
  | true => exact .single _
  | false => exact .empty

theorem CommandLine.linesText_isLines (lines : List String) : IsLines (linesText lines) lines := by
  induction lines with
  | nil => exact .empty
  | cons line rest ih =>
    have hcons : linesText (line :: rest) = line ++ "\n" ++ linesText rest := by
      unfold linesText
      rw [List.map_cons, String.join_cons]
    rw [hcons]
    exact (IsLines.single line).append ih

/-! ## Complaints -/

/-- The line is something exclaimed. -/
def IsOutburst (line : String) : Prop :=
  ∃ particle ∈ particles, ∃ oath ∈ mincedOaths, ∃ resignation ∈ resignations,
    line = particle ++ oath ++ "! " ++ resignation

/-- The lines of an issue: the opening line and an empty one, the places, each below its source, and
    the closing lines. -/
def Issue.lines (index : SourceIndex) (issue : Issue) : List String :=
  issue.intro :: "" ::
    (issue.annotations.flatMap fun a => [a.span.source, index.quote a.span a.caption]) ++
    issue.footer

/-- The lines complain of one issue. -/
def IsComplaint (index : SourceIndex) (issue : Issue) (lines : List String) : Prop :=
  ∃ outburst, IsOutburst outburst ∧
    lines = "************************************************************" :: outburst ::
      "  -  -  -  -  -  -  -  -  -  -  -  -  -  -  -  -  -  -  -  -" :: issue.lines index

theorem Picks.pick_mem (picks : Picks) {options : List String} (h : options ≠ []) :
    (picks.pick options).1 ∈ options := by
  have hlt : picks.number picks.used % options.length < options.length :=
    Nat.mod_lt _ (List.length_pos_of_ne_nil h)
  show options.getD _ "" ∈ options
  rw [List.getD_eq_getElem?_getD, List.getElem?_eq_getElem hlt]
  exact List.getElem_mem hlt

theorem Picks.outburst_isOutburst (picks : Picks) : IsOutburst picks.outburst.1 :=
  ⟨_, pick_mem _ (List.cons_ne_nil _ _), _, pick_mem _ (List.cons_ne_nil _ _), _,
    pick_mem _ (List.cons_ne_nil _ _), rfl⟩

theorem Issue.text_isLines (index : SourceIndex) {issue : Issue}
    (hone : issue.annotations.length ≤ 1) :
    IsLines (issue.text index ++ "\n") (issue.lines index) := by
  have hplaces : quotedPlaces index none issue.annotations =
      issue.annotations.flatMap fun a => [a.span.source, index.quote a.span a.caption] := by
    rcases hnotes : issue.annotations with _ | ⟨a, _ | ⟨b, rest⟩⟩
    · rfl
    · simp [quotedPlaces]
    · rw [hnotes] at hone
      simp at hone
  unfold text lines
  rw [hplaces]
  exact .intercalate _ _

/-- A report with one issue, which quotes at most one place, complains of it. -/
theorem Report.complaint_isLines (verbose : Bool) {issue : Issue}
    (hone : issue.annotations.length ≤ 1) (index : SourceIndex) (picks : Picks) :
    ∃ complaint, IsComplaint index issue complaint ∧
      IsLines (((Report.new verbose).add issue).complaint index picks).1 complaint := by
  refine ⟨_, ⟨_, picks.outburst_isOutburst, rfl⟩, ?_⟩
  have hstars : repeated 60 "*" =
      "************************************************************" := by decide +kernel
  have hrule : repeated 20 "  -" =
      "  -  -  -  -  -  -  -  -  -  -  -  -  -  -  -  -  -  -  -  -" := by decide +kernel
  have htold : (((Report.new verbose).add issue).complaint index picks).1 =
      repeated 60 "*" ++ "\n" ++ (picks.outburst.1 ++ "\n") ++ (repeated 20 "  -" ++ "\n") ++
        (issue.text index ++ "\n") := by
    simp [complaint, add, new, String.append_assoc]
  rw [htold, hstars, hrule]
  exact (((IsLines.single _).append (.single _)).append (.single _)).append
    (issue.text_isLines index hone)

/-! ## Runs on a new machine -/

/-- How a program ends on a new machine, and the machine then. -/
def Program.outcome (limits : Limits) (program : Program) : Except Stop Unit × Machine :=
  program.runWithin limits (Machine.new .fresh)

/-- Does a loop of the program go on forever there? -/
def Program.goesOn (limits : Limits) (program : Program) : Bool :=
  match (program.outcome limits).1 with
  | .error .endless => true
  | _ => false

/-- The program fails there, and in a call that it leaves a parameter has a value that nests too
    deep to be shown. -/
def Program.FailsBeyondTelling (limits : Limits) (program : Program) : Prop :=
  ∃ f, (program.outcome limits).1 = .error (.failure f) ∧
    ∃ call ∈ f.calls, ∃ param ∈ call.function.params, ∃ v,
      call.bindings.lookup param = some v ∧ limits.nesting < v.depth

/-- Does it fail there in such a call? -/
def Program.isBeyondTelling (limits : Limits) (program : Program) : Bool :=
  match (program.outcome limits).1 with
  | .error (.failure f) => !f.isShowable limits.nesting
  | _ => false

/-- A failure cannot be shown because of some parameter of some call. -/
theorem Failure.isShowable_eq_false_iff {nesting : Nat} {f : Failure} :
    f.isShowable nesting = false ↔ ∃ call ∈ f.calls, ∃ param ∈ call.function.params, ∃ v,
      call.bindings.lookup param = some v ∧ nesting < v.depth := by
  have hvalue (value : Option Value) : (value.all fun v => decide (v.depth ≤ nesting)) = false ↔
      ∃ v, value = some v ∧ nesting < v.depth := by
    cases value <;> simp
  simp only [isShowable, CallRecord.isShowable, List.all_eq_false, Bool.not_eq_true, hvalue]

theorem Program.isBeyondTelling_iff {limits : Limits} {program : Program} :
    program.isBeyondTelling limits = true ↔ program.FailsBeyondTelling limits := by
  unfold isBeyondTelling FailsBeyondTelling
  rcases hresult : (program.outcome limits).1 with stop | u
  · cases stop with
    | failure f => simp [← Failure.isShowable_eq_false_iff]
    | _ => simp
  · simp

theorem Program.FailsBeyondTelling.goesOn_eq_false {limits : Limits} {program : Program}
    (h : program.FailsBeyondTelling limits) : program.goesOn limits = false := by
  obtain ⟨f, hstop, -⟩ := h
  rw [goesOn, hstop]

/-- In a run on a new machine the listener gets just the lines of the log. -/
theorem Program.echoed_outcome (limits : Limits) (program : Program) :
    (program.outcome limits).2.echoed = (program.outcome limits).2.output := by
  have hprints := (Block.watch_prints limits program.block).around (.block program.block)
    (Machine.new .fresh).reset
  obtain ⟨hadds, -⟩ := List.pairwise_cons.mp hprints
  obtain ⟨lines, houtput, hechoed⟩ := hadds (program.watch limits (Machine.new .fresh)).machine
    (List.mem_append_right _ (List.mem_singleton_self _))
  rw [outcome, ← program.watch_eq_run]
  exact hechoed.trans houtput.symm

/-- **The program of a text** comes to its end or stops for a reason that can be told, unless it
    fails beyond telling or goes on forever. -/
theorem Program.outcome_cases {source text : String} {program : Program} (limits : Limits)
    (h : Program.ofText source text = .ok program) (hends : program.goesOn limits = false) :
    (program.outcome limits).1 = .ok () ∨
      (∃ stop, (program.outcome limits).1 = .error stop ∧
        stop.isTellable limits.nesting = true) ∨
      program.FailsBeyondTelling limits := by
  have hsafe := Program.watch_safe limits (Program.isProper_of_ofText h) (Machine.new .fresh)
  have hrun : (program.watch limits (Machine.new .fresh)).result = (program.outcome limits).1 :=
    congrArg Prod.fst (program.watch_eq_run limits (Machine.new .fresh))
  rw [hrun] at hsafe
  unfold goesOn at hends
  cases hresult : (program.outcome limits).1 with
  | ok u => exact .inl rfl
  | error stop =>
    rw [hresult] at hsafe hends
    right
    cases stop with
    | failure f =>
      cases hshow : f.isShowable limits.nesting with
      | true => exact .inl ⟨_, rfl, hshow⟩
      | false => exact .inr ⟨f, hresult, Failure.isShowable_eq_false_iff.mp hshow⟩
    | tooDeep => exact .inl ⟨_, rfl, rfl⟩
    | misfit => exact absurd hsafe id
    | mismatch => exact absurd hsafe id
    | host fault => exact absurd hsafe id
    | endless => cases hends

namespace CommandLine

/-! ## Telling the truth -/

/-- The lines in the log after running a text; none, if it is no program. -/
def logOf (limits : Limits) (source text : String) : List String :=
  match Program.ofText source text with
  | .ok program => (program.outcome limits).2.output.toList
  | .error _ => []

/-- All goes well with a text: it is a program and its run, if it is to be run, comes to its end. -/
def GoesWell (limits : Limits) (path text : String) (check : Bool) : Prop :=
  ∃ program, Program.ofText path text = .ok program ∧
    (check = false → (program.outcome limits).1 = .ok ())

/-- What goes wrong with a text, after this progress: it is no program, or its run stops for a
    reason that the issue tells. -/
inductive GoesWrong (limits : Limits) (name path text : String) :
    (check : Bool) → (progress : List String) → Issue → Prop
  | refused {check : Bool} {fault : SyntaxFault} (h : Program.ofText path text = .error fault)
      (htold : fault.IsToldBy path (.syntaxFault path fault)) :
      GoesWrong limits name path text check ["Parsing " ++ path] (.syntaxFault path fault)
  | stopped {program : Program} {stop : Stop} {issue : Issue}
      (h : Program.ofText path text = .ok program)
      (hstop : (program.outcome limits).1 = .error stop)
      (htold : stop.IsToldBy ((program.outcome limits).2.atWork.bind Stmt.site) issue) :
      GoesWrong limits name path text false ["Parsing " ++ path, "Running " ++ name] issue

/-- The progress that is told when all goes well. -/
def progressToEnd (limits : Limits) (name path text : String) (check : Bool) : List String :=
  if check then ["Parsing " ++ path]
  else ["Parsing " ++ path, "Running " ++ name,
    "Printed " ++ toString (logOf limits path text).length ++ " line(s)."]

/-- A transcript that tells the truth about the text of a file, whether it was to be run or only to
    be checked. -/
structure Transcript.IsTrue (told : Transcript) (limits : Limits) (name path text : String)
    (check verbose : Bool) : Prop where
  /-- The output is the log, with an end to each line; nothing, if nothing was to be run. -/
  out : IsLines told.out (if check then [] else logOf limits path text)
  /-- The status is zero exactly if all went well. -/
  well : told.ending = .status 0 ↔ GoesWell limits path text check
  /-- Then there is no complaint, but progress, and good news if the text was to be checked. -/
  quietly : told.ending = .status 0 →
    IsLines told.err ((if verbose then progressToEnd limits name path text check else []) ++
      if check then ["Looks plausible to me."] else [])
  /-- Else the status is one, and after the progress there is a complaint of one issue, the right
      one. -/
  badly : told.ending ≠ .status 0 → told.ending = .status 1 ∧
    ∃ progress issue complaint, GoesWrong limits name path text check progress issue ∧
      IsComplaint (SourceIndex.empty.register path text) issue complaint ∧
      IsLines told.err ((if verbose then progress else []) ++ complaint)

/-- A session that is cut short in the middle of telling does not tell the truth. -/
theorem Transcript.IsTrue.ending_ne_untellable {told : Transcript} {limits : Limits}
    {name path text : String} {check verbose : Bool}
    (h : told.IsTrue limits name path text check verbose) : told.ending ≠ .untellable := by
  intro hending
  obtain ⟨hstatus, -⟩ := h.badly (by rw [hending]; exact nofun)
  rw [hending] at hstatus
  cases hstatus

/-! ## The ways of a text -/

section

variable {limits : Limits} {path text : String} {program : Program}

theorem processText_of_error {fault : SyntaxFault} (h : Program.ofText path text = .error fault)
    (limits : Limits) (name : String) (check verbose : Bool) (picks : Picks) :
    processText limits name path text check (.new verbose) picks =
      complain "" ((Report.new verbose).info ["Parsing", path])
        ((Report.new verbose).add (.syntaxFault path fault))
        (SourceIndex.empty.register path text) picks := by
  unfold processText
  rw [Report.readText_of_error h]

theorem processText_checked (h : Program.ofText path text = .ok program) (limits : Limits)
    (name : String) (verbose : Bool) (picks : Picks) :
    processText limits name path text true (.new verbose) picks =
      ⟨"", (Report.new verbose).info ["Parsing", path] ++ "Looks plausible to me.\n",
        .status 0⟩ := by
  unfold processText
  rw [Report.readText_of_ok h]
  rfl

theorem processText_run (h : Program.ofText path text = .ok program) (limits : Limits)
    (name : String) (verbose : Bool) (picks : Picks) :
    processText limits name path text false (.new verbose) picks =
      runProgram limits name program (.new verbose) (SourceIndex.empty.register path text)
        ((Report.new verbose).info ["Parsing", path]) picks := by
  unfold processText
  rw [Report.readText_of_ok h]
  rfl

/-- What a session tells if its program comes to its end. -/
theorem runProgram_of_ok (hend : (program.outcome limits).1 = .ok ()) (name : String)
    (report : Report) (index : SourceIndex) (err : String) (picks : Picks) :
    runProgram limits name program report index err picks =
      ⟨linesText (program.outcome limits).2.echoed.toList, err ++ report.info ["Running", name] ++
        report.info ["Printed " ++ toString (program.outcome limits).2.output.size ++ " line(s)."],
        .status 0⟩ := by
  have hrun : program.runWithin limits (Machine.new .fresh) =
      (.ok (), (program.outcome limits).2) := Prod.ext hend rfl
  unfold runProgram
  rw [hrun]

/-- What a session tells if its program fails beyond telling. -/
theorem runProgram_of_beyondTelling (h : program.FailsBeyondTelling limits) (name : String)
    (report : Report) (index : SourceIndex) (err : String) (picks : Picks) :
    runProgram limits name program report index err picks =
      ⟨linesText (program.outcome limits).2.echoed.toList, err ++ report.info ["Running", name],
        .untellable⟩ := by
  obtain ⟨f, hstop, hdeep⟩ := h
  have hrun : program.runWithin limits (Machine.new .fresh) =
      (.error (.failure f), (program.outcome limits).2) := Prod.ext hstop rfl
  have hshow : ¬f.isShowable limits.nesting = true :=
    Bool.not_eq_true _ |>.mpr (Failure.isShowable_eq_false_iff.mpr hdeep)
  unfold runProgram
  rw [hrun]
  exact if_neg hshow

end

section

variable {limits : Limits} {name path text : String} {check : Bool} {progress : List String}
  {issue : Issue}

theorem GoesWrong.not_goesWell (h : GoesWrong limits name path text check progress issue) :
    ¬GoesWell limits path text check := by
  rintro ⟨program, hprogram, hend⟩
  cases h with
  | refused h htold =>
    rw [h] at hprogram
    cases hprogram
  | stopped h hstop htold =>
    obtain rfl := Except.ok.inj (h.symm.trans hprogram)
    rw [hstop] at hend
    cases hend rfl

theorem GoesWrong.length_annotations_le
    (h : GoesWrong limits name path text check progress issue) : issue.annotations.length ≤ 1 := by
  cases h with
  | @refused check fault h htold =>
    cases fault with
    | unexpected token expected => exact Nat.le_refl 1
    | unknown c extent => exact Nat.le_refl 1
    | unfinished => exact Nat.zero_le 1
  | stopped h hstop htold => exact htold.length_annotations_le

/-- Complaining of what goes wrong is telling the truth. -/
theorem GoesWrong.complain_isTrue (h : GoesWrong limits name path text check progress issue)
    {out err : String} {verbose : Bool}
    (hout : IsLines out (if check then [] else logOf limits path text))
    (herr : IsLines err (if verbose then progress else [])) (picks : Picks) :
    (complain out err ((Report.new verbose).add issue) (SourceIndex.empty.register path text)
      picks).IsTrue limits name path text check verbose := by
  obtain ⟨complaint, hcomplaint, hlines⟩ := Report.complaint_isLines verbose
    h.length_annotations_le (SourceIndex.empty.register path text) picks
  exact ⟨hout, ⟨nofun, fun hwell => absurd hwell h.not_goesWell⟩, nofun, fun _ =>
    ⟨rfl, progress, issue, complaint, h, hcomplaint, herr.append hlines⟩⟩

end

/-! ## What is made of a text -/

theorem info_parsing_isLines (verbose : Bool) (path : String) :
    IsLines ((Report.new verbose).info ["Parsing", path])
      (if verbose then ["Parsing " ++ path] else []) :=
  Report.info_isLines verbose ["Parsing", path]

theorem info_running_isLines (verbose : Bool) (path name : String) :
    IsLines ((Report.new verbose).info ["Parsing", path] ++
        (Report.new verbose).info ["Running", name])
      (if verbose then ["Parsing " ++ path, "Running " ++ name] else []) := by
  have happend := (info_parsing_isLines verbose path).append
    (Report.info_isLines verbose ["Running", name])
  cases verbose <;> exact happend

/-- What is written out is the log. -/
theorem echoed_isLines {path text : String} {program : Program} (limits : Limits)
    (h : Program.ofText path text = .ok program) :
    IsLines (linesText (program.outcome limits).2.echoed.toList) (logOf limits path text) := by
  rw [logOf, h, program.echoed_outcome]
  exact linesText_isLines _

/-- What is made of a text tells the truth about it, unless its program is to be run and fails
    beyond telling. -/
theorem processText_isTrue (limits : Limits) (name path text : String) (check verbose : Bool)
    (picks : Picks)
    (hends : check = false → ∀ program, Program.ofText path text = .ok program →
      program.goesOn limits = false ∧ ¬program.FailsBeyondTelling limits) :
    (processText limits name path text check (.new verbose) picks).IsTrue limits name path text
      check verbose := by
  have hparsing := info_parsing_isLines verbose path
  have hrunning := info_running_isLines verbose path name
  cases hread : Program.ofText path text with
  | error fault =>
    have hlog : logOf limits path text = [] := by rw [logOf, hread]
    rw [processText_of_error hread]
    refine (GoesWrong.refused hread (SyntaxFault.isToldBy_of_ofText hread)).complain_isTrue ?_
      hparsing picks
    rw [hlog, ite_self]
    exact .empty
  | ok program =>
    have hout := echoed_isLines limits hread
    cases check with
    | true =>
      rw [processText_checked hread]
      exact ⟨.empty, ⟨fun _ => ⟨program, hread, nofun⟩, fun _ => rfl⟩,
        fun _ => hparsing.append (.single "Looks plausible to me."), fun h => absurd rfl h⟩
    | false =>
      obtain ⟨hgoes, htold⟩ := hends rfl program hread
      rw [processText_run hread]
      rcases program.outcome_cases limits hread hgoes with
        hend | ⟨stop, hstop, htellable⟩ | hbeyond
      · have hlog : (logOf limits path text).length = (program.outcome limits).2.output.size := by
          rw [logOf, hread, Array.length_toList]
        have hprinted := hrunning.append (Report.info_isLines verbose
          ["Printed " ++ toString (logOf limits path text).length ++ " line(s)."])
        rw [runProgram_of_ok hend, ← hlog]
        refine ⟨hout, ⟨fun _ => ⟨program, hread, fun _ => hend⟩, fun _ => rfl⟩, fun _ => ?_,
          fun h => absurd rfl h⟩
        cases verbose <;> exact hprinted
      · obtain ⟨issue, htold, hrun⟩ := runProgram_of_error (Prod.ext hstop rfl) htellable name
          (.new verbose) (SourceIndex.empty.register path text)
          ((Report.new verbose).info ["Parsing", path]) picks
        rw [hrun]
        exact (GoesWrong.stopped hread hstop htold).complain_isTrue hout hrunning picks
      · exact absurd hbeyond htold

/-- Beyond telling, a session is cut short after the log and the progress. -/
theorem processText_of_beyondTelling {limits : Limits} {path text : String} {program : Program}
    (h : Program.ofText path text = .ok program) (hbeyond : program.FailsBeyondTelling limits)
    (name : String) (verbose : Bool) (picks : Picks) :
    let told := processText limits name path text false (.new verbose) picks
    told.ending = .untellable ∧ IsLines told.out (logOf limits path text) ∧
      IsLines told.err (if verbose then ["Parsing " ++ path, "Running " ++ name] else []) := by
  intro told
  have htold : told = _ :=
    (processText_run h limits name verbose picks).trans (runProgram_of_beyondTelling hbeyond ..)
  rw [htold]
  exact ⟨rfl, echoed_isLines limits h, info_running_isLines verbose path name⟩

/-- A check comes to the same within any limits. -/
theorem processText_check (limits others : Limits) (name path text : String) (report : Report)
    (picks : Picks) :
    processText limits name path text true report picks =
      processText others name path text true report picks := by
  unfold processText
  rcases report.readText .empty path text with ⟨program, report, index⟩
  cases program <;> rfl

/-! ## Sessions -/

/-- A session that is asked for a readable file goes on with its text. -/
theorem session_eq_processText {folder name : String} {args : List String} {check verbose : Bool}
    {content : List UInt8} {written : List Char} {read : String → FileReading}
    (hargs : wish args = .run name check verbose)
    (hread : read (pathFrom folder name) = .bytes content)
    (hcontent : content.toByteArray = written.utf8Encode) (limits : Limits) (picks : Picks) :
    session limits folder args read picks =
      processText limits name (pathFrom folder name) (String.ofList (Text.uniformBreaks written))
        check (.new verbose) picks := by
  have hsome : args.isEmpty = false := by
    cases args with
    | nil => simp [wish, sortArguments, takeAll, Request.settle] at hargs
    | cons arg rest => rfl
  have htext : Text.ofFile content = .ok (String.ofList (Text.uniformBreaks written)) :=
    Text.ofFile_eq_ok_iff.mpr ⟨written, hcontent, rfl⟩
  unfold session opening
  rw [hsome, if_neg Bool.false_ne_true, hargs]
  dsimp only
  unfold processFile
  rw [hread]
  dsimp only
  rw [htext]

/-- **A session tells the truth unless the program fails beyond telling.**  The arguments ask for a
    file, its contents are valid UTF-8, and its program, if it is to be run, does not go on forever.
    Then the transcript tells the truth about the text, except if the program is to be run and fails
    in a call with a value that nests too deep to be shown.  In that case the log is written out as
    ever, but the session is cut short after its progress, without any issue and without a status.
    A check comes to the same whatever the host puts up with: nothing is executed. -/
theorem session_tells_truth_iff {folder name : String} {args : List String} {check verbose : Bool}
    {content : List UInt8} {written : List Char} {read : String → FileReading} (limits : Limits)
    (picks : Picks) (hargs : wish args = .run name check verbose)
    (hread : read (pathFrom folder name) = .bytes content)
    (hcontent : content.toByteArray = written.utf8Encode)
    (hends : check = false → ∀ program, Program.ofText (pathFrom folder name)
      (String.ofList (Text.uniformBreaks written)) = .ok program →
        program.goesOn limits = false) :
    let path := pathFrom folder name
    let text := String.ofList (Text.uniformBreaks written)
    let told := session limits folder args read picks
    let beyondTelling := check = false ∧
      ∃ program, Program.ofText path text = .ok program ∧ program.FailsBeyondTelling limits
    (told.IsTrue limits name path text check verbose ↔ ¬beyondTelling) ∧
      (beyondTelling → told.ending = .untellable ∧ IsLines told.out (logOf limits path text) ∧
        IsLines told.err (if verbose then ["Parsing " ++ path, "Running " ++ name] else [])) ∧
      (check = true → ∀ others, session others folder args read picks = told) := by
  intro path text told beyondTelling
  have htold : told = processText limits name path text check (.new verbose) picks :=
    session_eq_processText hargs hread hcontent limits picks
  have hcut (h : beyondTelling) : told.ending = .untellable ∧
      IsLines told.out (logOf limits path text) ∧
      IsLines told.err (if verbose then ["Parsing " ++ path, "Running " ++ name] else []) := by
    obtain ⟨rfl, program, hprogram, hbeyond⟩ := h
    rw [htold]
    exact processText_of_beyondTelling hprogram hbeyond name verbose picks
  refine ⟨⟨fun htrue hbeyond => ?_, fun htellable => ?_⟩, hcut, ?_⟩
  · exact htrue.ending_ne_untellable (hcut hbeyond).1
  · rw [htold]
    exact processText_isTrue limits name path text check verbose picks
      fun hcheck program hprogram => ⟨hends hcheck program hprogram,
        fun hbeyond => htellable ⟨hcheck, program, hprogram, hbeyond⟩⟩
  · rintro rfl others
    rw [htold, session_eq_processText hargs hread hcontent]
    exact processText_check ..

/-- The bytes of a text. -/
theorem toByteArray_data_toList (text : String) :
    text.toByteArray.data.toList.toByteArray = text.toList.utf8Encode := by
  rw [String.utf8Encode_toList]
  exact ByteArray.ext (by rw [List.data_toByteArray, Array.toArray_toList])

theorem wish_plain : wish ["prog.bella"] = .run "prog.bella" false false := by
  have hsorted : sortArguments ["prog.bella"] = .ok [("prog.bella", .plain)] := rfl
  rw [wish, hsorted]
  simp [takeAll, skipSeparator, Request.settle]

/-- A program that fails after its first line. -/
theorem session_tells_truth_iff_afterLine :
    let written := "print true; print x;"
    let content := written.toByteArray.data.toList
    let path := pathFrom "/home" "prog.bella"
    let text := String.ofList (Text.uniformBreaks written.toList)
    let told := session .standard "/home" ["prog.bella"] (fun _ => .bytes content) (.cycle [])
    wish ["prog.bella"] = .run "prog.bella" false false ∧
      content.toByteArray = written.toList.utf8Encode ∧
      (∀ program, Program.ofText path text = .ok program → program.goesOn .standard = false) ∧
      told.IsTrue .standard "prog.bella" path text false false ∧ told.out = "true\n" := by
  intro written content path text told
  have hcontent : content.toByteArray = written.toList.utf8Encode := toByteArray_data_toList written
  have hruns (program : Program) (h : Program.ofText path text = .ok program) :
      program.goesOn .standard = false ∧ program.isBeyondTelling .standard = false := by
    have hall : (Program.ofText path text).toOption.all (fun program =>
        !program.goesOn .standard && !program.isBeyondTelling .standard) = true := by
      decide +kernel
    rw [h] at hall
    have hboth := Bool.and_eq_true_iff.mp hall
    exact ⟨Bool.not_eq_true' _ |>.mp hboth.1, Bool.not_eq_true' _ |>.mp hboth.2⟩
  have hends (program : Program) (h : Program.ofText path text = .ok program) :
      program.goesOn .standard = false := (hruns program h).1
  have htellable : ¬(false = false ∧ ∃ program, Program.ofText path text = .ok program ∧
      program.FailsBeyondTelling .standard) := by
    rintro ⟨-, program, h, hbeyond⟩
    rw [← Program.isBeyondTelling_iff, (hruns program h).2] at hbeyond
    cases hbeyond
  have htrue : told.IsTrue .standard "prog.bella" path text false false :=
    (session_tells_truth_iff .standard (.cycle []) wish_plain rfl hcontent fun _ => hends).1.mpr
      htellable
  have hlog : logOf .standard path text = ["true"] := by decide +kernel
  have hout := htrue.out
  rw [hlog] at hout
  exact ⟨wish_plain, hcontent, hends, htrue, String.toList_inj.mp hout⟩

/-- A program that fails in a call with an array that nests 343 deep: the session is cut short
    without a word. -/
theorem session_misses_truth :
    let written := "function f(x) = [[[[[[[x]]]]]]]; function g(x) = f(f(f(f(f(f(f(x))))))); " ++
      "function h(x) = y; print h(g(g(g(g(g(g(g(true))))))));"
    let content := written.toByteArray.data.toList
    let path := pathFrom "/home" "prog.bella"
    let text := String.ofList (Text.uniformBreaks written.toList)
    let told := session .standard "/home" ["prog.bella"] (fun _ => .bytes content) (.cycle [])
    wish ["prog.bella"] = .run "prog.bella" false false ∧
      content.toByteArray = written.toList.utf8Encode ∧
      (∀ program, Program.ofText path text = .ok program → program.goesOn .standard = false) ∧
      told.ending = .untellable ∧ IsLines told.err [] ∧
      ¬told.IsTrue .standard "prog.bella" path text false false := by
  intro written content path text told
  have hcontent : content.toByteArray = written.toList.utf8Encode := toByteArray_data_toList written
  obtain ⟨program, hprogram, hbeyond⟩ : ∃ program, Program.ofText path text = .ok program ∧
      program.FailsBeyondTelling .standard := by
    have hany : (Program.ofText path text).toOption.any (·.isBeyondTelling .standard) = true := by
      decide +kernel
    cases hread : Program.ofText path text with
    | ok program =>
      rw [hread] at hany
      exact ⟨program, rfl, Program.isBeyondTelling_iff.mp hany⟩
    | error fault =>
      rw [hread] at hany
      cases hany
  have htold : told = processText .standard "prog.bella" path text false (.new false) (.cycle []) :=
    session_eq_processText wish_plain rfl hcontent .standard (.cycle [])
  obtain ⟨hending, -, herr⟩ :=
    processText_of_beyondTelling hprogram hbeyond "prog.bella" false (.cycle [])
  rw [← htold] at hending herr
  refine ⟨wish_plain, hcontent, fun other hother => ?_, hending, herr,
    fun htrue => htrue.ending_ne_untellable hending⟩
  obtain rfl := Except.ok.inj (hprogram.symm.trans hother)
  exact hbeyond.goesOn_eq_false

end CommandLine

end BellaLang
