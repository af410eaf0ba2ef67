import BellaLang.CommandLine.Session
import BellaLang.Proofs.Execution.OfText
import BellaLang.Proofs.Text.Decoding

/-!
What is left in the report when a program file has been read.

On the way from the bytes of a file to a tree there are four things that can go wrong, each in its
own way: the bytes are no text, the text cannot be cut into tokens, the tokens are no program, or a
constructor refuses what it is handed.  The second and the third become an issue of the report, the
last never happens.  The first is not caught by anything: a fault in the encoding goes past the
report and ends the session, before a word is written.  So reading keeps to the report for the files
that are valid UTF-8, and for no other.

  1. Reading is the first thing that a session with a file does, and all that the session learns of
     the file (`processFile_eq`).
  2. What there is for each contents: a text is read into the report (`readProgram_of_ofFile`), a
     fault in the encoding is not (`readProgram_of_fault`).
  3. Which files these are is said by the encoding alone (`readProgram_keepsTo_iff`), not by what
     the decoder does.

Main statement: `readProgram_keepsTo_iff`.
-/

namespace BellaLang

namespace CommandLine

/-! ## Reading a program file -/

/-- What there is when a file has been read: the progress told, the program if there is one, the
    report, and the texts that can be quoted. -/
structure FileOutcome where
  notes : String
  program : Option Program
  report : Report
  index : SourceIndex

/-- Read a program file on behalf of a report; an error is what goes past the report. -/
def readProgram (report : Report) (index : SourceIndex) (path : String) :
    FileReading → Except Ending FileOutcome
  | .impossibleName => .error .impossibleName
  | .missing => .ok ⟨"", none, report.add (.noSuchFile path), index⟩
  | .broken fault => .ok ⟨"", none, report.add (.brokenFile path fault.message), index⟩
  | .bytes content =>
    match Text.ofFile content with
    | .error fault => .error (.undecodable fault)
    | .ok text =>
      let (program, report', index') := report.readText index path text
      .ok ⟨report.info ["Parsing", path], program, report', index'⟩

/-- Go on when the file has been read. -/
def proceed (limits : Limits) (name : String) (check : Bool) (picks : Picks) :
    Except Ending FileOutcome → Transcript
  | .error ending => ⟨"", "", ending⟩
  | .ok ⟨notes, none, report, index⟩ => complain "" notes report index picks
  | .ok ⟨notes, some program, report, index⟩ =>
    if check then ⟨"", notes ++ "Looks plausible to me.\n", .status 0⟩
    else runProgram limits name program report index notes picks

variable {report : Report} {index : SourceIndex} {path text : String} {content : List UInt8}

/-- **A session with a file reads it and goes on** with what there is then, and with nothing
    else. -/
theorem processFile_eq (limits : Limits) (name path : String) (check verbose : Bool)
    (reading : FileReading) (picks : Picks) :
    processFile limits name path check verbose reading picks =
      proceed limits name check picks (readProgram (.new verbose) .empty path reading) := by
  cases reading with
  | impossibleName => rfl
  | missing => rfl
  | broken fault => rfl
  | bytes content =>
    unfold processFile readProgram
    dsimp only
    cases Text.ofFile content with
    | error fault => rfl
    | ok text =>
      dsimp only
      unfold processText
      cases hread : Program.ofText path text with
      | error fault =>
        rw [Report.readText_of_error hread]
        rfl
      | ok program =>
        rw [Report.readText_of_ok hread]
        rfl

/-! ## Keeping to the report -/

/-- What there is when a file has been read keeps to the report: there is a program and no new
    issue, or there is none and just one more issue. -/
inductive KeepsTo (report : Report) : Except Ending FileOutcome → Prop
  | program {notes : String} {program : Program} {index : SourceIndex} :
      KeepsTo report (.ok ⟨notes, some program, report, index⟩)
  | issue {notes : String} {issue : Issue} {index : SourceIndex} :
      KeepsTo report (.ok ⟨notes, none, report.add issue, index⟩)

/-! ## The ways of the contents -/

/-- What becomes of a text: all constructors take what is built of it, and it is a program; or what
    is wrong with it is an issue. -/
inductive IsReadingOf (report : Report) (index : SourceIndex) (path text : String) :
    Except Ending FileOutcome → Prop
  | built {d : Derivation} {program : Program} (hread : readText text = .ok d)
      (hbuild : d.build? path = some [.node (.program program.block)]) :
      IsReadingOf report index path text (.ok ⟨report.info ["Parsing", path], some program, report,
        index.register path text⟩)
  | refused {fault : SyntaxFault} (hread : readText text = .error fault) :
      IsReadingOf report index path text (.ok ⟨report.info ["Parsing", path], none,
        report.add (.syntaxFault path fault), index.register path text⟩)

theorem IsReadingOf.keepsTo {outcome : Except Ending FileOutcome}
    (h : IsReadingOf report index path text outcome) : KeepsTo report outcome := by
  cases h with
  | built => exact .program
  | refused => exact .issue

/-- A text is read into the report. -/
theorem readProgram_of_ofFile (h : Text.ofFile content = .ok text) (report : Report)
    (index : SourceIndex) (path : String) :
    IsReadingOf report index path text (readProgram report index path (.bytes content)) := by
  unfold readProgram
  dsimp only
  rw [h]
  dsimp only
  cases hread : readText text with
  | error fault =>
    have hfault : Program.ofText path text = .error fault := by rw [Program.ofText, hread]; rfl
    rw [Report.readText_of_error hfault]
    exact .refused hread
  | ok d =>
    have hprogram : Program.ofText path text = .ok (d.toProgram path) := by
      rw [Program.ofText, hread]
      rfl
    obtain ⟨hgrammatical, hsymbol, -⟩ := readText_eq_ok_iff.mp hread
    rw [Report.readText_of_ok hprogram]
    exact .built hread (hgrammatical.build?_program path hsymbol)

/-- A fault in the encoding goes past the report. -/
theorem readProgram_of_fault {fault : Text.EncodingFault} (h : Text.ofFile content = .error fault)
    (report : Report) (index : SourceIndex) (path : String) :
    readProgram report index path (.bytes content) = .error (.undecodable fault) := by
  unfold readProgram
  dsimp only
  rw [h]

/-- **Reading keeps to the report if the contents are valid UTF-8, and only then.**  If the bytes
    encode a text, then that text, with uniform line breaks, either is a program, which all
    constructors take, or is refused with just one issue.  Else there is a fault in the encoding,
    which goes past the report. -/
theorem readProgram_keepsTo_iff (report : Report) (index : SourceIndex) (path : String)
    (content : List UInt8) :
    let outcome := readProgram report index path (.bytes content)
    (KeepsTo report outcome ↔ content.toByteArray.IsValidUTF8) ∧
      (∀ written : List Char, content.toByteArray = written.utf8Encode →
        IsReadingOf report index path (String.ofList (Text.uniformBreaks written)) outcome) ∧
      (¬content.toByteArray.IsValidUTF8 → ∃ fault, Text.decode content = .error fault ∧
        outcome = .error (.undecodable fault)) := by
  intro outcome
  have hreading (written : List Char) (hbytes : content.toByteArray = written.utf8Encode) :
      IsReadingOf report index path (String.ofList (Text.uniformBreaks written)) outcome :=
    readProgram_of_ofFile (Text.ofFile_eq_ok_iff.mpr ⟨written, hbytes, rfl⟩) report index path
  have hfault (hinvalid : ¬content.toByteArray.IsValidUTF8) :
      ∃ fault, Text.decode content = .error fault ∧ outcome = .error (.undecodable fault) := by
    cases hdecode : Text.decode content with
    | ok written => exact absurd ⟨written, Text.decode_eq_ok_iff.mp hdecode⟩ hinvalid
    | error fault =>
      have hfile : Text.ofFile content = .error fault := by rw [Text.ofFile, hdecode]; rfl
      exact ⟨fault, rfl, readProgram_of_fault hfile report index path⟩
  refine ⟨⟨fun hkeeps => ?_, fun ⟨written, hbytes⟩ => (hreading written hbytes).keepsTo⟩, hreading,
    hfault⟩
  by_contra hinvalid
  obtain ⟨fault, -, houtcome⟩ := hfault hinvalid
  rw [houtcome] at hkeeps
  cases hkeeps

/-- One byte that begins no character: there is neither a program nor an issue. -/
theorem readProgram_loneByte :
    let outcome := readProgram (.new false) .empty "x.bella" (.bytes [0xff])
    outcome = .error (.undecodable ⟨0, [0xff], .badStart⟩) ∧ ¬KeepsTo (.new false) outcome := by
  intro outcome
  have houtcome : outcome = .error (.undecodable ⟨0, [0xff], .badStart⟩) :=
    readProgram_of_fault rfl (.new false) .empty "x.bella"
  refine ⟨houtcome, fun hkeeps => ?_⟩
  rw [houtcome] at hkeeps
  cases hkeeps

end CommandLine

end BellaLang
