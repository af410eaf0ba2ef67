import BellaLang.Syntax.Span
import BellaLang.Text.Rows

/-!
The texts that can be quoted.

Every text that is read is put into the index under the name of its source, and replaces an earlier
text of that source.  Only the sources that were put in last are kept, so the index does not grow
with the number of texts ever read.
-/

namespace BellaLang

/-! ## The index -/

/-- How many texts are kept. -/
def textsKept : Nat := 8

/-- Sources with their texts, the one put in last at the end. -/
structure SourceIndex where
  entries : List (String × String)

/-- No text at all. -/
def SourceIndex.empty : SourceIndex := ⟨[]⟩

/-- Put in a text; the oldest ones go when there are too many. -/
def SourceIndex.register (index : SourceIndex) (source text : String) : SourceIndex :=
  let others := index.entries.filter fun entry => entry.1 != source
  let all := others ++ [(source, text)]
  ⟨all.drop (all.length - textsKept)⟩

/-- The text of a source, if it is kept. -/
def SourceIndex.text? (index : SourceIndex) (source : String) : Option String :=
  index.entries.lookup source

/-! ## Quoting -/

/-- What is shown of a span: the row where it starts and a pointer below it; or its line alone, if
    its source is not kept. -/
def SourceIndex.quote (index : SourceIndex) (span : Span) (caption : String) : String :=
  match index.text? span.source with
  | none =>
    String.ofList (Text.padNumber 6 span.extent.line) ++ " | (source unavailable) " ++ caption
  | some text =>
    Text.excerpt text.toList span.extent.start (span.extent.stop - span.extent.start) caption

end BellaLang
