import BellaLang.Failure
import BellaLang.Grammar.Reading
import BellaLang.Report.SourceIndex

/-!
What is said about the things that go wrong.

An issue has an opening line, places in texts with captions, and closing lines.  There is one kind
of issue for everything that can keep a program from being run to its end: a file that is missing or
cannot be read, a text that is no program, a failure, and calls that nest too deep.
-/

namespace BellaLang

/-! ## Issues -/

/-- A place in a text, and what to write beside it. -/
structure Annotation where
  span : Span
  caption : String

/-- Something that went wrong. -/
structure Issue where
  intro : String
  annotations : List Annotation
  footer : List String

/-- The quoted places, with a heading wherever the source is another one than before. -/
def quotedPlaces (index : SourceIndex) : (before : Option String) → List Annotation → List String
  | _, [] => []
  | before, a :: rest =>
    let quote := index.quote a.span a.caption
    let others := quotedPlaces index (some a.span.source) rest
    if before = some a.span.source then quote :: others else a.span.source :: quote :: others

/-- An issue in full. -/
def Issue.text (index : SourceIndex) (issue : Issue) : String :=
  "\n".intercalate
    (issue.intro :: "" :: quotedPlaces index none issue.annotations ++ issue.footer)

/-! ## Files -/

/-- The issue with a file that is not there. -/
def Issue.noSuchFile (path : String) : Issue := ⟨"I see no file called " ++ path, [], []⟩

/-- The issue with a file that cannot be read. -/
def Issue.brokenFile (path cause : String) : Issue :=
  ⟨"Something went pear-shaped while trying to read " ++ path, [], [cause]⟩

/-! ## Texts -/

/-- The labels of terminals, in alphabetical order. -/
def sortedLabels (terminals : List Terminal) : List String :=
  (terminals.map Terminal.label).mergeSort fun a b => decide (a < b) || a == b

/-- How a token is called: by its text, unless it is the end of the text. -/
def Token.description (token : Token) : String :=
  if token.terminal = .endOfText then "the end of the text"
  else Text.quoted (String.ofList token.text)

/-- The place where the reader of a text gave up. -/
def confusion (source : String) (extent : Extent) : List Annotation :=
  [⟨⟨source, extent⟩, "Bella got confused here"⟩]

/-- The issue with a text that is no program. -/
def Issue.syntaxFault (source : String) : SyntaxFault → Issue
  | .unexpected token expected =>
    ⟨"Bella got confused by " ++ token.description ++ ".", confusion source token.extent,
     ["Expected one of: " ++ ", ".intercalate (sortedLabels expected)]⟩
  | .unknown c extent =>
    ⟨"Bella does not know what to make of " ++ Text.quoted (String.singleton c) ++ ".",
     confusion source extent,
     ["That character does not begin any word or symbol of the language."]⟩
  | .unfinished =>
    ⟨"Ran out of words in " ++ source ++ ".", [],
     ["The program seems to stop in the middle of something."]⟩

/-! ## Runs -/

/-- The place of the statement at work, if it has one. -/
def annotateSite (site : Site) (caption : String) : List Annotation :=
  match site with
  | none => []
  | some span => [⟨span, caption⟩]

/-- The issue with a run that failed, and the calls that it left. -/
def Issue.runtimeError (failure : Failure) (site : Site) : Issue :=
  ⟨"The program failed with " ++ failure.cause.message ++ ".",
   annotateSite site failure.cause.kind.text,
   failure.calls.map fun call => "... inside " ++ call.text⟩

/-- The issue with a run in which calls nested too deep. -/
def Issue.tooDeep (site : Site) : Issue :=
  ⟨"The program went too deep into function calls.", annotateSite site "while doing this",
   ["Perhaps some recursion never reaches its base case?"]⟩

end BellaLang
