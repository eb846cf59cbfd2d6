import WorkflowLint.Main
import WorkflowLint.Proofs.Additions
import WorkflowLint.Proofs.Gate
import WorkflowLint.Proofs.Unreachable
import WorkflowLint.Proofs.Reevaluation
import WorkflowLint.Proofs.Registry.History
import WorkflowLint.Proofs.RequestTrace
import WorkflowLint.Proofs.DiscoveryOrder
import WorkflowLint.Proofs.RunTotals
import WorkflowLint.Proofs.Http.Absence
import WorkflowLint.Proofs.InternalActions
import WorkflowLint.Proofs.Registry.Overlap
import WorkflowLint.Proofs.Report.Rendering
import WorkflowLint.Proofs.InputFiles
import WorkflowLint.Proofs.Config.Climb
import WorkflowLint.Proofs.Config.Precedence
import WorkflowLint.Proofs.Config.Root
import WorkflowLint.Proofs.Action.Exemption
import WorkflowLint.Proofs.Action.Parts
import WorkflowLint.Proofs.Rules.Verdict
import WorkflowLint.Proofs.Registry.Chain
import WorkflowLint.Proofs.Registry.Dereference
import WorkflowLint.Proofs.Action.Segments
import WorkflowLint.Proofs.Registry.UpdateLink
import WorkflowLint.Proofs.CompletePaths
import WorkflowLint.Proofs.Files.Places
import WorkflowLint.Proofs.Glob.Search
import WorkflowLint.Proofs.DirectorySearch
import WorkflowLint.Proofs.Glob.Found
import WorkflowLint.Proofs.SameFile
import WorkflowLint.Proofs.Url.Decoding
import WorkflowLint.Proofs.Registry.EndpointParts
import WorkflowLint.Proofs.Url.Trailing
import WorkflowLint.Proofs.ShownNames
import WorkflowLint.Proofs.WorkflowEdits
