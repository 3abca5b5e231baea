import FlowScript.Main
import FlowScript.Run.Loop
import FlowScript.Program.Encode
import FlowScript.Schema.Reader
import FlowScript.Surface
import FlowScript.Tree.Reader
import FlowScript.Proofs.CompileOutcome
import FlowScript.Proofs.TemplateLiteral
import FlowScript.Proofs.StepLoop
import FlowScript.Proofs.HeaderComments
import FlowScript.Proofs.InputInjection
import FlowScript.Proofs.ScriptScanner
import FlowScript.Proofs.RecordLiterals
import FlowScript.Proofs.OutputKeys
import FlowScript.Proofs.Resuming
import FlowScript.Proofs.CanonicalForm
import FlowScript.Proofs.LoopAgreement
import FlowScript.Proofs.LayoutLines
import FlowScript.Proofs.RoundTrip
import FlowScript.Proofs.ScriptBlocks
import FlowScript.Proofs.CheckedAlike
import FlowScript.Proofs.UnknownKeys
import FlowScript.Proofs.SurfaceAgreement
import FlowScript.Proofs.ShortestDecimal
import FlowScript.Proofs.Digits
import FlowScript.Proofs.NumberText
import FlowScript.Proofs.CompactText
import FlowScript.Proofs.Pointers
import FlowScript.Proofs.Findings
import FlowScript.Proofs.ByteOrder
import FlowScript.Proofs.CanonicalReport
import FlowScript.Proofs.StepViolations
import FlowScript.Proofs.QuotedText
import FlowScript.Proofs.CookedTemplate
import FlowScript.Proofs.StepByStep
import FlowScript.Proofs.WhenClauses
import FlowScript.Proofs.DuplicateWarnings
import FlowScript.Proofs.LiteralForms
import FlowScript.Proofs.Reindentation
import FlowScript.Proofs.PathSteps
import FlowScript.Proofs.OutputPath
import FlowScript.Proofs.DiskChanges
import FlowScript.Proofs.CommandOutcome
import FlowScript.Proofs.Reporting
