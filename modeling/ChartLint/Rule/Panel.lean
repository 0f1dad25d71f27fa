import ChartLint.Rule.Basic
import ChartLint.Source.Declaration

/-!
# Status panel

Hints on the text panel that shows a script's state on the chart: there should be one, and the bar
update should not return too often in front of it.
-/

namespace ChartLint.Rule.Panel

open Pattern Source

/-- The call that draws the panel. -/
def panel : Pattern :=
  .edge ++ "Draw.TextFixed" ++ blanks ++ "("

/-- A return without value. -/
def earlyReturn : Pattern :=
  .edge ++ "return" ++ blanks ++ ";"

/-- How many returns may stand in front of the panel. -/
def allowedReturns : Nat := 2

/-- The hint on a panel inside the bar update. -/
def hiddenPanel? (masked : Text) (body : Span) : Option Finding :=
  match panel.findWithin? masked body.start body.stop with
  | none => none
  | some m =>
    let returns := (earlyReturn.findAllWithin masked body.start m.start).length
    if returns ≤ allowedReturns then
      none
    else
      some (.info (Text.lineOf masked m.start)
        (s!"Draw.TextFixed panel comes after {returns} return statements in "
          ++ "OnBarUpdate(); it may not be drawn in some conditions"))

/-- The hints of the rule. -/
def findings (masked : Text) : List Finding :=
  if panel.occursIn masked then
    ((methodBody? masked "OnBarUpdate".toList).bind (hiddenPanel? masked)).toList
  else
    [.info 0 "No Draw.TextFixed status panel; one is recommended to show live state"]

end Panel

/-- The script shows its state on the chart. -/
def panel : Rule :=
  ofMasked "panel_visibility" "PanelChecker" Panel.findings

end ChartLint.Rule
