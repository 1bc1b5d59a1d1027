import CondLang.Codec.Expr
import CondLang.Codec.Token
import CondLang.Codec.Value
import CondLang.Condition
import CondLang.Expr.Outline
import CondLang.Expr.Text
import CondLang.Json.Parse
import CondLang.Json.Text
import CondLang.Proofs.CanonicalTokens
import CondLang.Proofs.Composition
import CondLang.Proofs.Layout
import CondLang.Proofs.LookupAgreement
import CondLang.Proofs.Lookups
import CondLang.Proofs.PrintedForm
import CondLang.Proofs.QuoteScan
import CondLang.Proofs.Rejection
import CondLang.Proofs.StackMachine
import CondLang.Proofs.Tiling
import CondLang.Proofs.TypeAgreement
import CondLang.Proofs.JsonTokens
import CondLang.Proofs.JsonTrees
import CondLang.Proofs.JsonData
import CondLang.Proofs.OutermostError
import CondLang.Proofs.CorrectPrefix
import CondLang.Proofs.UniqueLexing
import CondLang.Proofs.ContinuedText
import CondLang.Proofs.Streaming
import CondLang.Proofs.IntegerLiterals
import CondLang.Proofs.BooleanResults
import CondLang.Proofs.Dualities
import CondLang.Proofs.Nesting
import CondLang.Proofs.ParserStates
import CondLang.Proofs.VisitOrder
import CondLang.Proofs.OperandFailures
import CondLang.Proofs.DisplayedValues
import CondLang.Proofs.SelfDelimiting
import CondLang.Proofs.TreeIdentity
import CondLang.Proofs.OutlineReading
import CondLang.Proofs.VariableChanges
import CondLang.Proofs.NodeCount
