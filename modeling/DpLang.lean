import DpLang.Command.Options
import DpLang.Command.Run
import DpLang.Files.Store
import DpLang.Format
import DpLang.Grammar.Cursor
import DpLang.Grammar.Declaration
import DpLang.Grammar.Expression
import DpLang.Grammar.Name
import DpLang.Grammar.Parser
import DpLang.Grammar.Statement
import DpLang.Imports.Block
import DpLang.Imports.Group
import DpLang.Imports.Path
import DpLang.Layout.Columns
import DpLang.Layout.Declaration
import DpLang.Layout.Expression
import DpLang.Layout.File
import DpLang.Layout.Listing
import DpLang.Layout.Page
import DpLang.Layout.Statement
import DpLang.Main
import DpLang.Position
import DpLang.Proofs.Afresh
import DpLang.Proofs.AlignedLists
import DpLang.Proofs.Alignment
import DpLang.Proofs.Alike
import DpLang.Proofs.AlikeFile
import DpLang.Proofs.Blame
import DpLang.Proofs.BlameFile
import DpLang.Proofs.BlameGrammar
import DpLang.Proofs.Canonical
import DpLang.Proofs.ColumnCells
import DpLang.Proofs.CommentPieces
import DpLang.Proofs.Concatenation
import DpLang.Proofs.Decoding
import DpLang.Proofs.Derivation
import DpLang.Proofs.DerivationFile
import DpLang.Proofs.DerivationGrammar
import DpLang.Proofs.Equations
import DpLang.Proofs.ExprTree
import DpLang.Proofs.Extension
import DpLang.Proofs.ExtensionFile
import DpLang.Proofs.FileLayout
import DpLang.Proofs.FileSafety
import DpLang.Proofs.FunctionBodies
import DpLang.Proofs.Grouping
import DpLang.Proofs.Image
import DpLang.Proofs.ImportBlock
import DpLang.Proofs.ImportOrder
import DpLang.Proofs.ImportResolution
import DpLang.Proofs.ImportedNames
import DpLang.Proofs.KeptComments
import DpLang.Proofs.KeptTexts
import DpLang.Proofs.LayoutTotal
import DpLang.Proofs.Lexing
import DpLang.Proofs.LineEnds
import DpLang.Proofs.LocalLayout
import DpLang.Proofs.Lockstep
import DpLang.Proofs.Munch
import DpLang.Proofs.OperatorChains
import DpLang.Proofs.PageRuns
import DpLang.Proofs.Pairing
import DpLang.Proofs.PairingFile
import DpLang.Proofs.PairingGrammar
import DpLang.Proofs.ParameterTypes
import DpLang.Proofs.Pieces
import DpLang.Proofs.Plan
import DpLang.Proofs.PlanLayout
import DpLang.Proofs.Progress
import DpLang.Proofs.ProgressGrammar
import DpLang.Proofs.ReadBack
import DpLang.Proofs.ReadBackDeclaration
import DpLang.Proofs.ReadBackExpression
import DpLang.Proofs.Reading
import DpLang.Proofs.ReadingFile
import DpLang.Proofs.ReadingGrammar
import DpLang.Proofs.Rejection
import DpLang.Proofs.Replacement
import DpLang.Proofs.ReportLines
import DpLang.Proofs.Roundtrip
import DpLang.Proofs.Running
import DpLang.Proofs.Scanning
import DpLang.Proofs.Shift
import DpLang.Proofs.Signatures
import DpLang.Proofs.Spans
import DpLang.Proofs.Spelling
import DpLang.Proofs.SpellingFile
import DpLang.Proofs.SpellingRow
import DpLang.Proofs.SpellingStatement
import DpLang.Proofs.StorePaths
import DpLang.Proofs.Subexpressions
import DpLang.Proofs.TokenRuns
import DpLang.Proofs.VerticalSpace
import DpLang.Proofs.Wellformed
import DpLang.Proofs.WellformedFile
import DpLang.Report
import DpLang.SelfCheck
import DpLang.Source
import DpLang.Text.Basic
import DpLang.Text.Case
import DpLang.Text.Letter
import DpLang.Text.LowerCase
import DpLang.Text.Printable
import DpLang.Text.Utf8
import DpLang.Token.Basic
import DpLang.Token.Lexer
import DpLang.Tree.Dump
import DpLang.Tree.Kind
import DpLang.Tree.Node
import DpLang.Tree.Operator
