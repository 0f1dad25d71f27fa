import ChartLint.Issue
import ChartLint.Source.Basic

/-!
# Rules

A rule reads one source and reports what violates it. Most rules read the masked twin alone; their
type says so, and what stands in comments and literals cannot reach them.
-/

namespace ChartLint

/-- A rule of the audit. -/
structure Rule where
  /-- The name on every issue of the rule. -/
  name : String
  /-- The name of the rule in listings. -/
  title : String
  /-- What the rule finds, unless it has to give up. -/
  find : Source → Except Fault (List Finding)

namespace Rule

/-- The issues of a rule, each with the rule's name. -/
def check (rule : Rule) (src : Source) : Except Fault (List Issue) :=
  (rule.find src).map (fun findings => findings.map (fun f => { f with check := rule.name }))

/-- A rule that reads the masked text alone and never gives up. -/
def ofMasked (name title : String) (find : Text → List Finding) : Rule :=
  ⟨name, title, fun src => .ok (find src.masked)⟩

/-- The line of a listing for a rule. -/
def listing (rule : Rule) : String :=
  s!"{rule.title}(name={cite rule.name})"

/-- The rule that finds nothing. -/
def silent : Rule :=
  ofMasked "base" "BaseChecker" (fun _ => [])

end Rule

end ChartLint
