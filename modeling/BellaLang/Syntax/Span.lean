/-!
Where in a text something stands.

An extent runs from the start of a first token to the end of a last one.  Its line and its column
are those of its start, counted from one; lines end at line feeds.  Offsets count characters.  A
span is an extent of a named source, so that a message can quote the row it is about.
-/

namespace BellaLang

/-! ## Extents and spans -/

/-- A stretch of a text. -/
structure Extent where
  line : Int
  column : Int
  start : Nat
  stop : Nat
deriving DecidableEq, Repr, Inhabited

/-- From the start of the first extent to the stop of the second. -/
def Extent.through (first last : Extent) : Extent := { first with stop := last.stop }

/-- A stretch of the text of a source. -/
structure Span where
  source : String
  extent : Extent
deriving DecidableEq, Repr, Inhabited

/-- The source, the line and the column. -/
def Span.text (span : Span) : String :=
  span.source ++ ":" ++ toString span.extent.line ++ ":" ++ toString span.extent.column

/-- Where a piece of syntax comes from: nowhere, if it was not read from a text. -/
abbrev Site := Option Span

end BellaLang
