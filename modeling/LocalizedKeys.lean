import LocalizedKeys.Catalog.Build
import LocalizedKeys.Catalog.Sorted
import LocalizedKeys.Catalog.Table
import LocalizedKeys.Command.Invocation
import LocalizedKeys.Command.Log
import LocalizedKeys.Command.Run
import LocalizedKeys.Command.Script
import LocalizedKeys.Command.Usage
import LocalizedKeys.Diagnostic.Basic
import LocalizedKeys.Diagnostic.Layout
import LocalizedKeys.Diagnostic.Template
import LocalizedKeys.Expansion.Error
import LocalizedKeys.Expansion.Member
import LocalizedKeys.Expansion.Options
import LocalizedKeys.Expansion.Placement
import LocalizedKeys.Expansion.Report
import LocalizedKeys.Expansion.Request
import LocalizedKeys.Expansion.Synthesis
import LocalizedKeys.Files.Path
import LocalizedKeys.Files.Tree
import LocalizedKeys.Format.Arguments
import LocalizedKeys.Format.ParamType
import LocalizedKeys.Format.Specifier
import LocalizedKeys.Language.Identifier
import LocalizedKeys.Language.Locales
import LocalizedKeys.Language.Registry
import LocalizedKeys.Language.System
import LocalizedKeys.Language.Tag
import LocalizedKeys.Main
import LocalizedKeys.Source.Cursor
import LocalizedKeys.Source.Edit
import LocalizedKeys.Source.Excerpt
import LocalizedKeys.Source.Location
import LocalizedKeys.Swift.Attribute
import LocalizedKeys.Swift.Case
import LocalizedKeys.Swift.Declaration
import LocalizedKeys.Swift.Expression
import LocalizedKeys.Swift.Literal
import LocalizedKeys.Swift.Name
import LocalizedKeys.Swift.SyntaxError
import LocalizedKeys.Swift.Tree
import LocalizedKeys.Swift.Trivia
import LocalizedKeys.Text.Blank
import LocalizedKeys.Text.Case
import LocalizedKeys.Text.DecimalDigit
import LocalizedKeys.Text.Json
import LocalizedKeys.Text.Letter
import LocalizedKeys.Text.Lines
import LocalizedKeys.Text.Numeral
import LocalizedKeys.Text.Printable
import LocalizedKeys.Text.Quoted
import LocalizedKeys.Text.Ranges
import LocalizedKeys.Text.SpecialCase
import LocalizedKeys.Text.Utf8
import LocalizedKeys.Proofs.Anywhere
import LocalizedKeys.Proofs.Arguments
import LocalizedKeys.Proofs.Balance
import LocalizedKeys.Proofs.Bodies
import LocalizedKeys.Proofs.Calls
import LocalizedKeys.Proofs.Carried
import LocalizedKeys.Proofs.CaseLists
import LocalizedKeys.Proofs.CatalogFiles
import LocalizedKeys.Proofs.CatalogOrder
import LocalizedKeys.Proofs.Catalogs
import LocalizedKeys.Proofs.Checked
import LocalizedKeys.Proofs.Cuts
import LocalizedKeys.Proofs.Detached
import LocalizedKeys.Proofs.DiagnosticLines
import LocalizedKeys.Proofs.Edited
import LocalizedKeys.Proofs.EditedTrees
import LocalizedKeys.Proofs.Escapes
import LocalizedKeys.Proofs.ExpressionTexts
import LocalizedKeys.Proofs.Frames
import LocalizedKeys.Proofs.Generics
import LocalizedKeys.Proofs.Guarded
import LocalizedKeys.Proofs.Indented
import LocalizedKeys.Proofs.Indents
import LocalizedKeys.Proofs.Isolated
import LocalizedKeys.Proofs.Joined
import LocalizedKeys.Proofs.JsonReader
import LocalizedKeys.Proofs.Keys
import LocalizedKeys.Proofs.LineTables
import LocalizedKeys.Proofs.Located
import LocalizedKeys.Proofs.MemberTexts
import LocalizedKeys.Proofs.Moved
import LocalizedKeys.Proofs.Multiline
import LocalizedKeys.Proofs.Names
import LocalizedKeys.Proofs.Nesting
import LocalizedKeys.Proofs.Ordered
import LocalizedKeys.Proofs.Outcome
import LocalizedKeys.Proofs.Outline
import LocalizedKeys.Proofs.Passage
import LocalizedKeys.Proofs.Pieces
import LocalizedKeys.Proofs.Placed
import LocalizedKeys.Proofs.Printed
import LocalizedKeys.Proofs.Printing
import LocalizedKeys.Proofs.Progress
import LocalizedKeys.Proofs.Ranges
import LocalizedKeys.Proofs.Reach
import LocalizedKeys.Proofs.ReadBack
import LocalizedKeys.Proofs.Reads
import LocalizedKeys.Proofs.Reread
import LocalizedKeys.Proofs.Results
import LocalizedKeys.Proofs.Rewriting
import LocalizedKeys.Proofs.Rounds
import LocalizedKeys.Proofs.Runs
import LocalizedKeys.Proofs.ScannedText
import LocalizedKeys.Proofs.Seams
import LocalizedKeys.Proofs.SimpleLiterals
import LocalizedKeys.Proofs.Spans
import LocalizedKeys.Proofs.Specifiers
import LocalizedKeys.Proofs.Splices
import LocalizedKeys.Proofs.Templates
import LocalizedKeys.Proofs.Tokens
import LocalizedKeys.Proofs.Trees
import LocalizedKeys.Proofs.Trivia
import LocalizedKeys.Proofs.Walks
