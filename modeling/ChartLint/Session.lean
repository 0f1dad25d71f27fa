import ChartLint.Audit
import ChartLint.DryRun
import ChartLint.Modernize

/-!
# Sessions

A session works on one script step by step; what a step makes of the script is what the next step
starts from.
-/

namespace ChartLint

/-- A step of a session. -/
inductive Step where
  /-- Audits the script; a repaired script takes its place. -/
  | audit (strict autoFix : Bool)
  /-- Tries the script; it stays as it is. -/
  | dryRun
  /-- Modernizes the script, as the requested kind if one is given. -/
  | modernize (requested : Option String)
  /-- Puts the masked script in the script's place. -/
  | mask
  | replace (old new : Text)
  | append (tail : Text)

/-- What a step reports. -/
inductive StepReport where
  | audit (result : Audit)
  | dryRun (result : DryRun)
  | modernize (result : Modernized)
  | edited

namespace Step

/-- Takes a step: its report, and the script behind it. -/
def take (p : Platform) (code : Text) : Step → StepReport × Text
  | .audit strict autoFix =>
    let result := Audit.run (Rule.suite p) strict autoFix code
    (.audit result, result.fixedCode.getD code)
  | .dryRun => (.dryRun (DryRun.run p code), code)
  | .modernize requested =>
    let result := Modernize.run requested code
    (.modernize result, result.revision.code)
  | .mask => (.edited, Lexing.mask code)
  | .replace old new => (.edited, Text.replaceAll old new code)
  | .append tail => (.edited, code ++ tail)

end Step

namespace Session

/-- Takes steps one after the other; gives the report of each and the script behind it. -/
def run (p : Platform) : Text → List Step → List (StepReport × Text)
  | _, [] => []
  | code, step :: rest =>
    let taken := step.take p code
    taken :: run p taken.2 rest

end Session

end ChartLint
