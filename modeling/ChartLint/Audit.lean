import ChartLint.Repair
import ChartLint.Rule.Alert
import ChartLint.Rule.Balance
import ChartLint.Rule.Brush
import ChartLint.Rule.Panel
import ChartLint.Rule.Property
import ChartLint.Rule.Resource
import ChartLint.Rule.Series
import ChartLint.Rule.Skeleton
import ChartLint.Rule.Tick

/-!
# Audits

An audit runs rules over one source in the order in which they are registered and puts their issues
together in that order. A rule that gives up takes no other rule with it: it leaves one internal
issue in place of its own.
-/

namespace ChartLint

/-- The nine rules, in the order of reports. -/
def Rule.suite (p : Platform) : List Rule :=
  [.balance, .skeleton p, .brush, .tick, .property, .series, .resource p, .alert, .panel]

/-- The outcome of an audit. The issues describe the script as it was given; `fixedCode` is the
repaired script, if a repair was asked for and had something to do. -/
structure Audit where
  verdict : Verdict
  issues : List Issue
  fixedCode : Option Text

namespace Audit

/-- The issue that a rule leaves when it gives up. -/
def internalIssue (rule : Rule) (fault : Fault) : Issue :=
  { Finding.error 0 s!"Checker {rule.name} failed: {fault.message}" with check := "internal" }

/-- The issues of one rule. -/
def issuesOf (src : Source) (rule : Rule) : List Issue :=
  match rule.check src with
  | .ok issues => issues
  | .error fault => [internalIssue rule fault]

/-- Runs rules over a script. What a rule fails with becomes an issue; a repair that fails takes
the audit with it. -/
def attempt (rules : List Rule) (strict autoFix : Bool) (code : Text) : Except Fault Audit :=
  let src := Source.ofCode code
  let issues := rules.flatMap (issuesOf src)
  let verdict := ChartLint.verdict strict issues
  if autoFix && !(Repair.subjects issues).isEmpty then
    (Repair.attempt issues code).map (fun fixed => ⟨verdict, issues, some fixed⟩)
  else
    .ok ⟨verdict, issues, none⟩

/-- **An audit does not fail**, whatever the rules. -/
theorem exists_attempt (rules : List Rule) (strict autoFix : Bool) (code : Text) :
    ∃ audit, attempt rules strict autoFix code = .ok audit := by
  obtain ⟨fixed, hfixed⟩ :=
    Repair.exists_attempt (rules.flatMap (issuesOf (Source.ofCode code))) code
  simp only [attempt, hfixed, map_ok]
  split <;> exact ⟨_, rfl⟩

/-- The outcome of an audit. -/
def run (rules : List Rule) (strict autoFix : Bool) (code : Text) : Audit :=
  valueOf (attempt rules strict autoFix code) (exists_attempt rules strict autoFix code)

section Outcome

variable (rules : List Rule) (strict autoFix : Bool) (code : Text)

theorem run_eq :
    run rules strict autoFix code =
      let issues := rules.flatMap (issuesOf (Source.ofCode code))
      ⟨ChartLint.verdict strict issues, issues,
        if autoFix && !(Repair.subjects issues).isEmpty then some (Repair.run issues code)
        else none⟩ := by
  have hrepair : ∀ issues, Repair.attempt issues code = .ok (Repair.run issues code) := fun issues =>
    eq_ok_valueOf (Repair.exists_attempt issues code)
  refine valueOf_eq _ ?_
  simp only [attempt, hrepair, map_ok]
  split <;> rfl

/-- The issues are those of the rules, one rule after the other. -/
@[simp]
theorem run_issues :
    (run rules strict autoFix code).issues = rules.flatMap (issuesOf (Source.ofCode code)) := by
  rw [run_eq]

/-- The verdict is one on the issues. -/
@[simp]
theorem run_verdict :
    (run rules strict autoFix code).verdict
      = ChartLint.verdict strict (rules.flatMap (issuesOf (Source.ofCode code))) := by
  rw [run_eq]

/-- There is a repaired script if a repair was asked for and some issue names something to mend. -/
@[simp]
theorem run_fixedCode :
    (run rules strict autoFix code).fixedCode =
      let issues := rules.flatMap (issuesOf (Source.ofCode code))
      if autoFix && !(Repair.subjects issues).isEmpty then some (Repair.run issues code)
      else none := by
  rw [run_eq]

end Outcome

/-- How many issues have a severity. -/
def count (issues : List Issue) (severity : Severity) : Nat :=
  issues.countP (fun i => i.severity == severity)

end Audit

end ChartLint
