import RpgLowering.Command.Arguments
import RpgLowering.Command.ClassName
import RpgLowering.Command.Error
import RpgLowering.Command.Files
import RpgLowering.Command.Help
import RpgLowering.Command.Log
import RpgLowering.Command.Narration
import RpgLowering.Command.Output
import RpgLowering.Command.Run
import RpgLowering.Core.Dump
import RpgLowering.Core.Equality
import RpgLowering.Core.OfSource
import RpgLowering.Core.Program
import RpgLowering.Document.Print
import RpgLowering.Document.Read
import RpgLowering.Document.Token
import RpgLowering.Document.Tree
import RpgLowering.Emit
import RpgLowering.Failure
import RpgLowering.Main
import RpgLowering.Proofs.Action
import RpgLowering.Proofs.Bind
import RpgLowering.Proofs.ClassExecution
import RpgLowering.Proofs.ClassMembers
import RpgLowering.Proofs.ClassNames
import RpgLowering.Proofs.ClassOutline
import RpgLowering.Proofs.Concatenation
import RpgLowering.Proofs.Construction
import RpgLowering.Proofs.CoreRun
import RpgLowering.Proofs.CountedLoop
import RpgLowering.Proofs.DecimalText
import RpgLowering.Proofs.Declarations
import RpgLowering.Proofs.Decoding
import RpgLowering.Proofs.DigitCounts
import RpgLowering.Proofs.DigitLimit
import RpgLowering.Proofs.DocumentText
import RpgLowering.Proofs.Emission
import RpgLowering.Proofs.Erasure
import RpgLowering.Proofs.ExpressionLexemes
import RpgLowering.Proofs.ExpressionText
import RpgLowering.Proofs.FailurePositions
import RpgLowering.Proofs.Firsts
import RpgLowering.Proofs.Grammar
import RpgLowering.Proofs.HandOff
import RpgLowering.Proofs.Identities
import RpgLowering.Proofs.InRange
import RpgLowering.Proofs.Indentation
import RpgLowering.Proofs.IntegerWidth
import RpgLowering.Proofs.Lexemes
import RpgLowering.Proofs.Listing
import RpgLowering.Proofs.ListingRows
import RpgLowering.Proofs.ListingText
import RpgLowering.Proofs.Lowered
import RpgLowering.Proofs.Margin
import RpgLowering.Proofs.MemberNames
import RpgLowering.Proofs.Members
import RpgLowering.Proofs.Nesting
import RpgLowering.Proofs.Numerals
import RpgLowering.Proofs.Occurrences
import RpgLowering.Proofs.PrintedStructure
import RpgLowering.Proofs.ProgramExecution
import RpgLowering.Proofs.ReadBack
import RpgLowering.Proofs.Reading
import RpgLowering.Proofs.Renaming
import RpgLowering.Proofs.Reordering
import RpgLowering.Proofs.RoundTrip
import RpgLowering.Proofs.Rounding
import RpgLowering.Proofs.Rows
import RpgLowering.Proofs.Separation
import RpgLowering.Proofs.SourceRun
import RpgLowering.Proofs.StaticTypes
import RpgLowering.Proofs.StringLiteral
import RpgLowering.Proofs.Supported
import RpgLowering.Proofs.TargetRun
import RpgLowering.Proofs.TypeQuery
import RpgLowering.Proofs.WellFormed
import RpgLowering.Real.Binary64
import RpgLowering.Real.Numeral
import RpgLowering.Real.Shortest
import RpgLowering.Real.Style
import RpgLowering.Settings
import RpgLowering.Settings.Quoted
import RpgLowering.Settings.Scalar
import RpgLowering.Settings.Tables
import RpgLowering.Settings.Text
import RpgLowering.Settings.Value
import RpgLowering.Source.CompilationUnit
import RpgLowering.Source.Equality
import RpgLowering.Source.Expr
import RpgLowering.Source.Read
import RpgLowering.Source.Stmt
import RpgLowering.Source.Type
import RpgLowering.Source.Typing
import RpgLowering.Source.Write
import RpgLowering.Span
import RpgLowering.Target.OfCore
import RpgLowering.Target.Print
import RpgLowering.Target.Tree
import RpgLowering.Text.Case
import RpgLowering.Text.Layout
import RpgLowering.Text.Quoted
