import BellaLang.Report.Issue
import BellaLang.Report.Outburst

/-!
Reports: issues are collected while a program is read and run, and told all at once at the end.

A report is sick as soon as it has an issue.  What it has to say is lines of text, and it is up to
the caller where they go.
-/

namespace BellaLang

/-! ## Collecting -/

/-- The issues so far, the first one first, and whether progress is to be told as well. -/
structure Report where
  verbose : Bool
  issues : List Issue

/-- A report without issues. -/
def Report.new (verbose : Bool) : Report := ⟨verbose, []⟩

/-- Add an issue. -/
def Report.add (report : Report) (issue : Issue) : Report :=
  { report with issues := report.issues ++ [issue] }

/-- Has anything gone wrong? -/
def Report.sick (report : Report) : Bool := !report.issues.isEmpty

/-- The opening lines of all issues. -/
def Report.descriptions (report : Report) : List String := report.issues.map (·.intro)

/-! ## Telling -/

/-- A line of progress, if progress is to be told. -/
def Report.info (report : Report) (words : List String) : String :=
  if report.verbose then " ".intercalate words ++ "\n" else ""

/-- A piece of text several times over. -/
def repeated (n : Nat) (piece : String) : String := String.join (List.replicate n piece)

/-- All issues, after an outburst; nothing, if there are none. -/
def Report.complaint (report : Report) (index : SourceIndex) (picks : Picks) : String × Picks :=
  if report.issues.isEmpty then ("", picks)
  else
    let (outburst, picks) := picks.outburst
    let told := report.issues.map fun issue =>
      repeated 20 "  -" ++ "\n" ++ issue.text index ++ "\n"
    (repeated 60 "*" ++ "\n" ++ outburst ++ "\n" ++ String.join told, picks)

/-- Insist that there are no issues: otherwise they are told, and the answer is a protest with a
    message. -/
def Report.insistOk (report : Report) (index : SourceIndex) (picks : Picks) (message : String) :
    Option String × String × Picks :=
  if report.issues.isEmpty then (none, "", picks)
  else
    let (told, picks) := report.complaint index picks
    let (outburst, picks) := picks.outburst
    (some (outburst ++ " " ++ message), told, picks)

end BellaLang
