import LiteralGrammar.Block.Fault
import LiteralGrammar.Block.Graph
import LiteralGrammar.Block.Key
import LiteralGrammar.Block.Layout
import LiteralGrammar.Block.Scalar
import LiteralGrammar.Block.Tree
import LiteralGrammar.Block.Writer
import LiteralGrammar.Combination
import LiteralGrammar.CommandLine.Log
import LiteralGrammar.CommandLine.Options
import LiteralGrammar.CommandLine.Run
import LiteralGrammar.CommandLine.Word
import LiteralGrammar.Config
import LiteralGrammar.Decimal.Binary64
import LiteralGrammar.Decimal.Digit
import LiteralGrammar.Decimal.Notation
import LiteralGrammar.Decimal.Numeral
import LiteralGrammar.Decimal.Shortest
import LiteralGrammar.Depth
import LiteralGrammar.Diagnostic.Basic
import LiteralGrammar.Diagnostic.Format
import LiteralGrammar.Diagnostic.Report
import LiteralGrammar.FileTree.Basic
import LiteralGrammar.FileTree.Directory
import LiteralGrammar.FileTree.Path
import LiteralGrammar.FileTree.Replace
import LiteralGrammar.Given
import LiteralGrammar.Json.Object
import LiteralGrammar.Json.Quoted
import LiteralGrammar.Locale
import LiteralGrammar.Marker
import LiteralGrammar.Pattern
import LiteralGrammar.Quote
import LiteralGrammar.Rule
import LiteralGrammar.RuleSet
import LiteralGrammar.Text.Basic
import LiteralGrammar.Text.Blank
import LiteralGrammar.Text.Lines
import LiteralGrammar.Text.Printable
import LiteralGrammar.Text.Shown
import LiteralGrammar.Proofs.Text.Runs
import LiteralGrammar.Proofs.Pattern.Matching
import LiteralGrammar.Proofs.Rule.Opening
import LiteralGrammar.Proofs.Combination.Sublists
import LiteralGrammar.Proofs.RuleSet.Selection
import LiteralGrammar.Proofs.Block.Refinement
import LiteralGrammar.Proofs.Block.Plain
import LiteralGrammar.Proofs.Block.ScalarReading
import LiteralGrammar.Proofs.Text.Decimal
import LiteralGrammar.Proofs.Block.Cutting
import LiteralGrammar.Proofs.Block.SafeScalar
import LiteralGrammar.Proofs.Block.Lossless
import LiteralGrammar.Proofs.Rule.Strings
import LiteralGrammar.Proofs.Rule.Readback
import LiteralGrammar.Proofs.Block.Strings
import LiteralGrammar.Proofs.RuleSet.Readback
import LiteralGrammar.Proofs.Text.Rows
import LiteralGrammar.Proofs.Text.Indenting
import LiteralGrammar.Proofs.Decimal.Notation
import LiteralGrammar.Proofs.Block.FirstFault
import LiteralGrammar.Proofs.Block.GraphWalk
import LiteralGrammar.Proofs.Block.Sharing
import LiteralGrammar.Proofs.Block.Widths
import LiteralGrammar.Proofs.Block.Apart
import LiteralGrammar.Proofs.Block.Mistaken
import LiteralGrammar.Proofs.Pattern.Greedy
import LiteralGrammar.Proofs.Rule.Captures
import LiteralGrammar.Proofs.RuleSet.Delimiters
import LiteralGrammar.Proofs.FileTree.Walk
import LiteralGrammar.Proofs.FileTree.Spelling
import LiteralGrammar.Proofs.FileTree.Replace
import LiteralGrammar.Proofs.FileTree.Failing
import LiteralGrammar.Proofs.FileTree.History
import LiteralGrammar.Proofs.CommandLine.Delivery
import LiteralGrammar.Proofs.Block.Decoding
import LiteralGrammar.Proofs.Block.Brackets
import LiteralGrammar.Proofs.Block.OneLine
import LiteralGrammar.Proofs.Block.Hanging
import LiteralGrammar.Proofs.Pattern.Search
import LiteralGrammar.Proofs.Pattern.Source
import LiteralGrammar.Proofs.Rule.Closing
import LiteralGrammar.Proofs.Rule.Accepting
import LiteralGrammar.Proofs.Combination.Masks
import LiteralGrammar.Proofs.Combination.Ordering
import LiteralGrammar.Proofs.RuleSet.Capping
import LiteralGrammar.Proofs.Rule.Doubled
import LiteralGrammar.Proofs.Rule.Spelling
import LiteralGrammar.Proofs.FileTree.NameLength
import LiteralGrammar.Proofs.Json.Reading
import LiteralGrammar.Proofs.Diagnostic.Json
import LiteralGrammar.Proofs.Block.LineCount
import LiteralGrammar.Proofs.Depth.Counting
import LiteralGrammar.Proofs.Decimal.Value
import LiteralGrammar.Proofs.Block.Numbers
import LiteralGrammar.Proofs.Block.Restoring
