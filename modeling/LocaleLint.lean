import LocaleLint.Main
import LocaleLint.Report.Masking
import LocaleLint.Proofs.Wording.Language
import LocaleLint.Proofs.Wording.Padding
import LocaleLint.Proofs.Markup.Acceptance
import LocaleLint.Proofs.Markup.Conservation
import LocaleLint.Proofs.Markup.RoundTrip
import LocaleLint.Proofs.Markup.Ignored
import LocaleLint.Proofs.Evaluation.Findings
import LocaleLint.Proofs.Evaluation.Verdict
import LocaleLint.Proofs.FilePattern.Selection
import LocaleLint.Proofs.FilePattern.Validity
import LocaleLint.Proofs.FileTree.Walk
import LocaleLint.Proofs.FileTree.Listing
import LocaleLint.Proofs.Json.RoundTrip
import LocaleLint.Proofs.Report.RoundTrip
import LocaleLint.Proofs.FileTree.Change
import LocaleLint.Proofs.CommandLine.ExitCode
import LocaleLint.Proofs.Evaluation.Options
import LocaleLint.Proofs.Evaluation.Chunks
import LocaleLint.Proofs.Evaluation.Fingerprints
import LocaleLint.Proofs.Console.Agreement
import LocaleLint.Proofs.FileTree.Isolation
import LocaleLint.Proofs.FileTree.Spelling
import LocaleLint.Proofs.Markup.TreeForm
import LocaleLint.Proofs.Report.Command
import LocaleLint.Proofs.Config.Resolution
import LocaleLint.Proofs.Markup.FirstFault
import LocaleLint.Proofs.Markup.Margins
import LocaleLint.Proofs.Report.Markdown
import LocaleLint.Proofs.Console.Color
import LocaleLint.Proofs.Markup.ByteOrderMark
import LocaleLint.Proofs.Report.Masking
