import RoffDocBook.Main
import RoffDocBook.Proofs.Reading.Delivery
import RoffDocBook.Proofs.Synopsis.Accounting
import RoffDocBook.Proofs.Synopsis.Repeats
import RoffDocBook.Proofs.Synopsis.Words
import RoffDocBook.Proofs.Conditional.ClosedBlock
import RoffDocBook.Proofs.Document.Calls
import RoffDocBook.Proofs.Document.KeptSections
import RoffDocBook.Proofs.Document.Level
import RoffDocBook.Proofs.Encoding.RoundTrip
import RoffDocBook.Proofs.Expansion.Binding
import RoffDocBook.Proofs.Expansion.Circle
import RoffDocBook.Proofs.Expansion.Ignored
import RoffDocBook.Proofs.Identifier.Uniqueness
import RoffDocBook.Proofs.Markup.Fonts
import RoffDocBook.Proofs.Markup.Unlinked
import RoffDocBook.Proofs.Reductions.Freshness
import RoffDocBook.Proofs.Hints.RoundTrip
import RoffDocBook.Proofs.Notes.Unknown
import RoffDocBook.Proofs.Expression.Evaluation
import RoffDocBook.Proofs.Formatter.FullExpansion
import RoffDocBook.Proofs.Formatter.EscapedSource
import RoffDocBook.Proofs.Table.Tiling
import RoffDocBook.Proofs.Document.Comments
import RoffDocBook.Proofs.Document.Substitution
import RoffDocBook.Proofs.Document.Headings
import RoffDocBook.Proofs.Formatter.Overflow
import RoffDocBook.Proofs.Formatter.Registers
import RoffDocBook.Proofs.Document.FontRuns
import RoffDocBook.Proofs.Synopsis.OldStyle
import RoffDocBook.Proofs.Table.Cells
import RoffDocBook.Proofs.Table.Columns
import RoffDocBook.Proofs.Expression.Width
import RoffDocBook.Proofs.Inline.Sizes
import RoffDocBook.Proofs.Mdoc.Ellipsis
import RoffDocBook.Proofs.Document.NameLine
import RoffDocBook.Proofs.ControlLine.Quoting
import RoffDocBook.Proofs.Document.TabStops
import RoffDocBook.Proofs.Document.LiteralBlock
import RoffDocBook.Proofs.Document.Inclusions
import RoffDocBook.Proofs.CommandLine.Batch
import RoffDocBook.Proofs.Configuration.Expansion
import RoffDocBook.Proofs.Identifier.Canonical
