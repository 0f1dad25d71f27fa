import ChartLint.Fault

/-!
# Issues and verdicts

An issue is one violation of one rule. The verdict of a run follows from the severities of its
issues alone.
-/

namespace ChartLint

/-- How serious a violation is. -/
inductive Severity where
  | error
  | warning
  | info
deriving DecidableEq, Repr

namespace Severity

/-- The name of a severity in answers. -/
def name : Severity → String
  | .error => "ERROR"
  | .warning => "WARNING"
  | .info => "INFO"

/-- The severity with a given name. -/
def ofName (s : String) : Except Fault Severity :=
  match [error, warning, info].find? (fun severity => severity.name == s) with
  | some severity => .ok severity
  | none => .error (.unknownSeverity s)

/-- A severity is read back from its name. -/
theorem ofName_name (severity : Severity) : ofName severity.name = .ok severity := by
  cases severity <;> rfl

end Severity

/-- The outcome of a run. -/
inductive Verdict where
  | pass
  | warn
  | fail
deriving DecidableEq, Repr

namespace Verdict

/-- The name of a verdict in answers. -/
def name : Verdict → String
  | .pass => "pass"
  | .warn => "warn"
  | .fail => "fail"

/-- The verdict with a given name. -/
def ofName (s : String) : Except Fault Verdict :=
  match [pass, warn, fail].find? (fun verdict => verdict.name == s) with
  | some verdict => .ok verdict
  | none => .error (.unknownVerdict s)

/-- A verdict is read back from its name. -/
theorem ofName_name (verdict : Verdict) : ofName verdict.name = .ok verdict := by
  cases verdict <;> rfl

end Verdict

/-- A remark on a line of a script; line zero stands for the whole script. -/
structure Diagnostic where
  severity : Severity
  line : Int
  message : String
deriving DecidableEq, Repr

/-- A violation of a rule; `subject` names the property it is about, if it is about one. -/
structure Finding extends Diagnostic where
  autoFixable : Bool := false
  subject : Option String := none
deriving DecidableEq, Repr

/-- A finding with the name of the rule that made it. -/
structure Issue extends Finding where
  check : String
deriving DecidableEq, Repr

namespace Finding

/-- An error on a line. -/
def error (line : Nat) (message : String) : Finding :=
  { severity := .error, line := line, message := message }

/-- A warning on a line. -/
def warning (line : Nat) (message : String) : Finding :=
  { severity := .warning, line := line, message := message }

/-- A hint on a line. -/
def info (line : Nat) (message : String) : Finding :=
  { severity := .info, line := line, message := message }

/-- The finding as one about a property. -/
def about (f : Finding) (subject : String) : Finding :=
  { f with subject := some subject }

/-- The finding as one that the repair can mend. -/
def mendable (f : Finding) : Finding :=
  { f with autoFixable := true }

end Finding

/-- The verdict over issues: an error fails; a warning warns, or fails a strict run; a hint
changes nothing. -/
def verdict (strict : Bool) (issues : List Issue) : Verdict :=
  if issues.any (fun i => i.severity == .error) then .fail
  else if issues.any (fun i => i.severity == .warning) then (if strict then .fail else .warn)
  else .pass

/-- How often each rule occurs among issues, in order of first occurrence. -/
def tally (issues : List Issue) : List (String × Nat) :=
  (issues.map (·.check)).eraseDups.map
    (fun check => (check, issues.countP (fun i => i.check == check)))

end ChartLint
