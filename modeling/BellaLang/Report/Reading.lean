import BellaLang.Grammar.Program
import BellaLang.Report.Basic

/-!
Reading a text on behalf of a report.

Whatever is read can be quoted later on, also if it turns out to be no program.  What is wrong with
it is an issue of the report; there is nothing else that reading adds to one.
-/

namespace BellaLang

/-- Read the text of a source: it goes into the index, and what is wrong with it into the report. -/
def Report.readText (report : Report) (index : SourceIndex) (source text : String) :
    Option Program × Report × SourceIndex :=
  let index := index.register source text
  match Program.ofText source text with
  | .error fault => (none, report.add (.syntaxFault source fault), index)
  | .ok program => (some program, report, index)

theorem Report.readText_of_error {source text : String} {fault : SyntaxFault}
    (h : Program.ofText source text = .error fault) (report : Report) (index : SourceIndex) :
    report.readText index source text =
      (none, report.add (.syntaxFault source fault), index.register source text) := by
  unfold readText
  rw [h]

theorem Report.readText_of_ok {source text : String} {program : Program}
    (h : Program.ofText source text = .ok program) (report : Report) (index : SourceIndex) :
    report.readText index source text = (some program, report, index.register source text) := by
  unfold readText
  rw [h]

end BellaLang
