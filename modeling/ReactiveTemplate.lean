import ReactiveTemplate.Expr.Printer
import ReactiveTemplate.Json.Encoding
import ReactiveTemplate.Report.Basic
import ReactiveTemplate.Session
import ReactiveTemplate.Command.Arguments
import ReactiveTemplate.Command.FileTree
import ReactiveTemplate.Command.Message
import ReactiveTemplate.Command.Run
import ReactiveTemplate.Main
import ReactiveTemplate.Proofs.Expr.Derivation
import ReactiveTemplate.Proofs.Expr.Completeness
import ReactiveTemplate.Proofs.Expr.Soundness
import ReactiveTemplate.Proofs.Expr.Recognition
import ReactiveTemplate.Proofs.Session.Transparency
import ReactiveTemplate.Proofs.Expr.Spans
import ReactiveTemplate.Proofs.Text.Character
import ReactiveTemplate.Proofs.Token.Locality
import ReactiveTemplate.Proofs.Token.Lexing
import ReactiveTemplate.Proofs.Expr.Source
import ReactiveTemplate.Proofs.Expr.Spelling
import ReactiveTemplate.Proofs.Expr.RoundTrip
import ReactiveTemplate.Proofs.Template.Balance
import ReactiveTemplate.Proofs.Template.Embedding
import ReactiveTemplate.Proofs.Token.Order
import ReactiveTemplate.Proofs.Expr.Marking
import ReactiveTemplate.Proofs.Expr.Layout
import ReactiveTemplate.Proofs.Expr.Site
import ReactiveTemplate.Proofs.Expr.Watching
import ReactiveTemplate.Proofs.Expr.Suppression
import ReactiveTemplate.Proofs.Template.Content
import ReactiveTemplate.Proofs.Template.Piece
import ReactiveTemplate.Proofs.Template.Tiling
import ReactiveTemplate.Proofs.Text.Extent
import ReactiveTemplate.Proofs.Token.Partition
import ReactiveTemplate.Proofs.Expr.Spacing
import ReactiveTemplate.Proofs.Expr.Borders
import ReactiveTemplate.Proofs.Expr.Refusals
import ReactiveTemplate.Proofs.Session.Composition
import ReactiveTemplate.Proofs.Token.Halting
import ReactiveTemplate.Proofs.Token.Resumption
import ReactiveTemplate.Proofs.Token.EscapeForms
import ReactiveTemplate.Proofs.Token.StringLiteral
import ReactiveTemplate.Proofs.Token.DecimalText
import ReactiveTemplate.Proofs.Expr.Blame
import ReactiveTemplate.Proofs.Expr.Errors
import ReactiveTemplate.Proofs.Expr.PrintedDepth
import ReactiveTemplate.Proofs.Expr.Reprinting
import ReactiveTemplate.Proofs.Expr.Constancy
import ReactiveTemplate.Proofs.Expr.PathText
import ReactiveTemplate.Proofs.Session.Contents
import ReactiveTemplate.Proofs.Template.Bracketing
import ReactiveTemplate.Proofs.Template.HeaderForm
import ReactiveTemplate.Proofs.Template.Progress
import ReactiveTemplate.Proofs.Template.Standalone
import ReactiveTemplate.Proofs.Expr.Separation
import ReactiveTemplate.Proofs.Expr.Nesting
import ReactiveTemplate.Proofs.Report.Colors
import ReactiveTemplate.Proofs.Text.Lines
import ReactiveTemplate.Proofs.Text.Location
import ReactiveTemplate.Proofs.Text.Coordinates
import ReactiveTemplate.Proofs.Template.Confinement
import ReactiveTemplate.Proofs.Report.Underline
import ReactiveTemplate.Proofs.Report.ErrorSpans
import ReactiveTemplate.Proofs.Number.Rounding
import ReactiveTemplate.Proofs.Number.Doubles
import ReactiveTemplate.Proofs.Token.RadixLiteral
import ReactiveTemplate.Proofs.Token.QuotedLiteral
import ReactiveTemplate.Proofs.Command.Directory
