import SmallLisp.Atom
import SmallLisp.Command
import SmallLisp.CommandLine
import SmallLisp.Cursor
import SmallLisp.Dialogue
import SmallLisp.Eval
import SmallLisp.EvalError
import SmallLisp.Event
import SmallLisp.FileFault
import SmallLisp.FileTree
import SmallLisp.Form
import SmallLisp.Ink
import SmallLisp.Limit
import SmallLisp.Main
import SmallLisp.Number.Decimal
import SmallLisp.Number.Double
import SmallLisp.Number.Format
import SmallLisp.Number.Layout
import SmallLisp.Number.Rounding
import SmallLisp.Number.Word
import SmallLisp.Operator
import SmallLisp.Operator.Apply
import SmallLisp.Operator.Arithmetic
import SmallLisp.Operator.Comparison
import SmallLisp.Path
import SmallLisp.Program
import SmallLisp.Proofs.Alike
import SmallLisp.Proofs.Lockstep
import SmallLisp.Scope
import SmallLisp.Scope.Inspect
import SmallLisp.Session
import SmallLisp.Settings
import SmallLisp.SpecialForm
import SmallLisp.Symbol
import SmallLisp.Text.Blank
import SmallLisp.Text.Digit
import SmallLisp.Text.Numeral
import SmallLisp.Text.Printable
import SmallLisp.Text.Quoted
import SmallLisp.Text.Split
import SmallLisp.Text.Upper
import SmallLisp.Text.Utf8
import SmallLisp.Token
import SmallLisp.Value
import SmallLisp.Value.Display
import SmallLisp.Value.Inspect
import SmallLisp.Value.Same
import SmallLisp.View
import SmallLisp.Proofs.LockstepForm
import SmallLisp.Proofs.LockstepEval
import SmallLisp.Proofs.OperatorResult
import SmallLisp.Proofs.Invariant
import SmallLisp.Proofs.FrameEffect
import SmallLisp.Proofs.ReadValues
import SmallLisp.Proofs.ScopesClosed
import SmallLisp.Proofs.ScopeShift
import SmallLisp.Proofs.FailedInput
import SmallLisp.Proofs.DoubleRange
import SmallLisp.Proofs.ReadErrors
import SmallLisp.Proofs.SoundValues
import SmallLisp.Proofs.AtomText
import SmallLisp.Proofs.NoCrash
import SmallLisp.Proofs.ReadBack
import SmallLisp.Proofs.TextLayout
import SmallLisp.Proofs.Bracketing
import SmallLisp.Proofs.EvalCongruence
import SmallLisp.Proofs.DepthGuard
import SmallLisp.Proofs.FormShape
import SmallLisp.Proofs.HiddenNames
import SmallLisp.Proofs.InsertedFrame
import SmallLisp.Proofs.LexicalScope
import SmallLisp.Proofs.Subvalue
import SmallLisp.Proofs.UnusedName
import SmallLisp.Proofs.ReadForms
import SmallLisp.Proofs.JoinedText
import SmallLisp.Proofs.ScriptPieces
import SmallLisp.Proofs.ScopeChains
import SmallLisp.Proofs.SharedStore
import SmallLisp.Proofs.SharedSessions
import SmallLisp.Proofs.Isolation
import SmallLisp.Proofs.SourceValues
import SmallLisp.Proofs.SourceEval
import SmallLisp.Proofs.SourceSessions
import SmallLisp.Proofs.TextLiterals
import SmallLisp.Proofs.LetAsCall
import SmallLisp.Proofs.SpacedTokens
import SmallLisp.Proofs.CursorVisits
import SmallLisp.Proofs.CursorCalls
import SmallLisp.Proofs.ScopeHistory
import SmallLisp.Proofs.ScopeLookup
import SmallLisp.Proofs.InsertionOrder
import SmallLisp.Proofs.MappingMemory
import SmallLisp.Proofs.SnapshotHistory
import SmallLisp.Proofs.WordArithmetic
import SmallLisp.Proofs.PowerBounds
import SmallLisp.Proofs.RankValues
import SmallLisp.Proofs.NearestRank
import SmallLisp.Proofs.ExactIntegers
import SmallLisp.Proofs.ComparisonLaws
import SmallLisp.Proofs.DecimalDigits
import SmallLisp.Proofs.DecimalGrid
import SmallLisp.Proofs.NearestError
import SmallLisp.Proofs.SingleRounding
import SmallLisp.Proofs.DecimalNotation
import SmallLisp.Proofs.ShortestText
import SmallLisp.Proofs.PrintedFloats
import SmallLisp.Proofs.ReadingRadius
import SmallLisp.Proofs.PowersOfTwo
import SmallLisp.Proofs.ShortestFloats
import SmallLisp.Proofs.ExactLevels
import SmallLisp.Proofs.FactorialCalls
