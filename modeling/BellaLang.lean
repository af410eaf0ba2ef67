import BellaLang.CommandLine.Arguments
import BellaLang.CommandLine.Session
import BellaLang.Failure
import BellaLang.Grammar.Automaton
import BellaLang.Grammar.Derivation
import BellaLang.Grammar.Program
import BellaLang.Grammar.Reading
import BellaLang.Grammar.Rule
import BellaLang.Grammar.Symbol
import BellaLang.Grammar.Token
import BellaLang.Machine.Basic
import BellaLang.Machine.Evaluation
import BellaLang.Machine.Execution
import BellaLang.Main
import BellaLang.Number.Arithmetic
import BellaLang.Number.Host
import BellaLang.Number.Magnitude
import BellaLang.Number.Notation
import BellaLang.Number.Numeral
import BellaLang.Number.Shortest
import BellaLang.Proofs.CommandLine.Contents
import BellaLang.Proofs.CommandLine.Telling
import BellaLang.Proofs.Evaluation.Agreement
import BellaLang.Proofs.Evaluation.Backtrace
import BellaLang.Proofs.Evaluation.Deepening
import BellaLang.Proofs.Evaluation.FlatStore
import BellaLang.Proofs.Evaluation.Guards
import BellaLang.Proofs.Evaluation.Origins
import BellaLang.Proofs.Evaluation.Powers
import BellaLang.Proofs.Evaluation.Preservation
import BellaLang.Proofs.Evaluation.Renumbering
import BellaLang.Proofs.Evaluation.Transparency
import BellaLang.Proofs.Execution.AtWork
import BellaLang.Proofs.Execution.Atomicity
import BellaLang.Proofs.Execution.CleanSlate
import BellaLang.Proofs.Execution.Globals
import BellaLang.Proofs.Execution.Identities
import BellaLang.Proofs.Execution.OfText
import BellaLang.Proofs.Execution.PrintedNumbers
import BellaLang.Proofs.Grammar.Acceptance
import BellaLang.Proofs.Grammar.Completeness
import BellaLang.Proofs.Grammar.Faults
import BellaLang.Proofs.Grammar.Items
import BellaLang.Proofs.Grammar.Language
import BellaLang.Proofs.Grammar.Phrases
import BellaLang.Proofs.Grammar.Reserved
import BellaLang.Proofs.Grammar.Run
import BellaLang.Proofs.Grammar.Scanning
import BellaLang.Proofs.Grammar.Soundness
import BellaLang.Proofs.Grammar.Taking
import BellaLang.Proofs.Grammar.Viability
import BellaLang.Proofs.Number.Comparing
import BellaLang.Proofs.Number.Digits
import BellaLang.Proofs.Number.Layout
import BellaLang.Proofs.Number.Nearest
import BellaLang.Proofs.Number.Numerals
import BellaLang.Proofs.Number.Ordering
import BellaLang.Proofs.Number.Packing
import BellaLang.Proofs.Number.ReadBack
import BellaLang.Proofs.Number.Rounding
import BellaLang.Proofs.Number.Shortest
import BellaLang.Proofs.Report.Hinting
import BellaLang.Proofs.Report.Pointing
import BellaLang.Proofs.Report.Retention
import BellaLang.Proofs.Store.Links
import BellaLang.Proofs.Store.Mirror
import BellaLang.Proofs.Store.Rewinding
import BellaLang.Proofs.Syntax.Deciding
import BellaLang.Proofs.Syntax.Lexemes
import BellaLang.Proofs.Syntax.Printing
import BellaLang.Proofs.Syntax.RoundTrip
import BellaLang.Proofs.Syntax.Spacing
import BellaLang.Proofs.Syntax.Spans
import BellaLang.Proofs.Text.Decoding
import BellaLang.Proofs.Text.Lines
import BellaLang.Proofs.Value.Equality
import BellaLang.Proofs.Value.Laws
import BellaLang.Proofs.Value.Reach
import BellaLang.Report.Basic
import BellaLang.Report.Issue
import BellaLang.Report.Outburst
import BellaLang.Report.Reading
import BellaLang.Report.SourceIndex
import BellaLang.Store.Basic
import BellaLang.Store.Bindings
import BellaLang.Store.Snapshot
import BellaLang.Syntax.Operator
import BellaLang.Syntax.Span
import BellaLang.Syntax.Text
import BellaLang.Syntax.Tree
import BellaLang.Text.Alphabet
import BellaLang.Text.CodeRanges
import BellaLang.Text.Encoded
import BellaLang.Text.Quoted
import BellaLang.Text.Rows
import BellaLang.Value.Basic
import BellaLang.Value.Equality
import BellaLang.Value.Native
import BellaLang.Value.Text
