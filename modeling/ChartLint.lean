import ChartLint.Audit
import ChartLint.DryRun
import ChartLint.Modernize
import ChartLint.Report
import ChartLint.Service.Route
import ChartLint.Session
import ChartLint.Proofs.Lexing.Layout
import ChartLint.Proofs.Lexing.Inert
import ChartLint.Proofs.Lexing.Linewise
import ChartLint.Proofs.Lexing.Offsets
import ChartLint.Proofs.Lexing.Segmentation
import ChartLint.Proofs.Masked
import ChartLint.Proofs.Lexing.Splice
import ChartLint.Proofs.Modernize.Idempotent
import ChartLint.Proofs.Audit.Faults
import ChartLint.Proofs.Repair.Insertion
import ChartLint.Proofs.Respacing.Audit
import ChartLint.Proofs.Audit.Lines
import ChartLint.Proofs.Modernize.Translation
import ChartLint.Proofs.Respacing.Rewriting
import ChartLint.Proofs.Repair.Complete
import ChartLint.Proofs.Repair.Initializer
import ChartLint.Proofs.Modernize.Tokens
import ChartLint.Proofs.Modernize.Agreement
import ChartLint.Proofs.Repair.Delivery
import ChartLint.Proofs.Balance.Matching
import ChartLint.Proofs.Modernize.ChangeLog
import ChartLint.Proofs.Modernize.Drawings
import ChartLint.Proofs.Brush.Lookback
import ChartLint.Proofs.Comments.Signals
import ChartLint.Proofs.Comments.Tags
import ChartLint.Proofs.Source.Phase
import ChartLint.Proofs.Source.Argument
import ChartLint.Proofs.Service.Route
import ChartLint.Proofs.Report
import ChartLint.Proofs.Session
