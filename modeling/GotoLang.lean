import GotoLang.Main
import GotoLang.Proofs.EnginePath
import GotoLang.Proofs.FailedStep
import GotoLang.Proofs.LimitedOutput
import GotoLang.Proofs.FlatSimulation
import GotoLang.Proofs.GotoFree
import GotoLang.Proofs.Rendering
import GotoLang.Proofs.SpelledText
import GotoLang.Proofs.LimitedRun
import GotoLang.Proofs.InsertedLabel
import GotoLang.Proofs.Rewriting
import GotoLang.Proofs.CommentText
import GotoLang.Proofs.Coupling
import GotoLang.Proofs.EvaluationFault
import GotoLang.Proofs.Prompting
import GotoLang.Proofs.ReadAttempt
import GotoLang.Proofs.ForwardProgram
import GotoLang.Proofs.UnreadInput
import GotoLang.Proofs.IntegerFragment
import GotoLang.Proofs.Renaming
import GotoLang.Proofs.RenamedRun
import GotoLang.Proofs.LoopExit
import GotoLang.Proofs.TokenLine
import GotoLang.Proofs.TreeLine
import GotoLang.Proofs.ReportedLine
import GotoLang.Proofs.CutExpression
import GotoLang.Proofs.UnfinishedProgram
import GotoLang.Proofs.LineBreak
import GotoLang.Proofs.IntegerLiteral
import GotoLang.Proofs.ExactArithmetic
import GotoLang.Proofs.VectorElement
import GotoLang.Proofs.Comparison
import GotoLang.Proofs.OperatorFault
import GotoLang.Proofs.RealText
import GotoLang.Proofs.LineValue
import GotoLang.Proofs.NumericEquality
import GotoLang.Proofs.FlatNamespace
import GotoLang.Proofs.PhraseExtent
import GotoLang.Proofs.LabelSpelling
import GotoLang.Proofs.GrammarProgress
import GotoLang.Proofs.RuleVerdict
import GotoLang.Proofs.DeclarationHead
