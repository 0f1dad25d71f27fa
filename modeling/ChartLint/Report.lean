import ChartLint.Audit
import ChartLint.DryRun

/-!
# Reports

The outcome of an audit or of a dry run as Markdown. A report ends with exactly one line feed.
-/

namespace ChartLint.Report

/-- The word for a verdict in reports. -/
def verdictLabel : Verdict → String
  | .pass => "PASS"
  | .warn => "WARNINGS"
  | .fail => "FAIL"

/-- The lines of a report as one text; blanks at its end are dropped. -/
def finish (ls : List Text) : Text :=
  Text.trimEnd (Text.joinLines ls) ++ ['\n']

/-- A titled list of entries, with an empty line behind title and list; nothing for no entries. -/
def listing {α : Type} (title : String) (entry : α → String) (items : List α) : List String :=
  if items.isEmpty then [] else [s!"## {title}", ""] ++ items.map entry ++ [""]

/-! ## Audits -/

/-- The entry of an issue; a line number is shown if there is one. -/
def issueEntry (i : Issue) : String :=
  let place := if 0 < i.line then s!"Line {i.line}: " else ""
  let mark := if i.autoFixable then " *(auto-fixable)*" else ""
  s!"- **[{i.check}]** {place}{i.message}{mark}"

/-- The lines on the repaired script. -/
def fixedLines : Option Text → List Text
  | none => []
  | some code =>
    ["## Automatically fixed code".toList, [], "```csharp".toList, code, "```".toList]

/-- The report on an audit. -/
def ofAudit (a : Audit) : Text :=
  let group (severity : Severity) : List Issue := a.issues.filter (fun i => i.severity == severity)
  let size (severity : Severity) : Nat := (group severity).length
  let head :=
    ["# NinjaScript Audit Report", "",
      s!"**Status**: {verdictLabel a.verdict}",
      s!"**Errors**: {size .error} | **Warnings**: {size .warning} | **Info**: {size .info}", ""]
  let empty :=
    if a.issues.isEmpty then ["No issues found. The script follows the platform conventions."]
    else []
  let body := listing "Errors (must be fixed)" issueEntry (group .error)
    ++ listing "Warnings" issueEntry (group .warning)
    ++ listing "Information" issueEntry (group .info)
  finish ((head ++ empty ++ body).map String.toList ++ fixedLines a.fixedCode)

/-! ## Dry runs -/

/-- The entry of a remark of a dry run. -/
def diagnosticEntry (d : Diagnostic) : String :=
  let place := if 0 < d.line then s!"**Line {d.line}**: " else ""
  s!"- {place}{d.message}"

/-- The report on a dry run. -/
def ofDryRun (r : DryRun) : Text :=
  let head :=
    ["# Static Compilation Test", "",
      s!"**Status**: {verdictLabel r.verdict}",
      s!"**Errors**: {r.errors.length} | **Warnings**: {r.warnings.length}", ""]
  let body := listing "Compilation errors" diagnosticEntry r.errors
    ++ listing "Warnings" diagnosticEntry r.warnings
  let tail :=
    if r.verdict = .pass then ["The script passes static analysis and is ready to compile."]
    else []
  finish ((head ++ body ++ tail).map String.toList)

end ChartLint.Report
