import ChartLint.Rule.Basic
import ChartLint.Source.Phase
import ChartLint.Source.Window

/-!
# Alerts

An alert is meant for live data. Without a test for the realtime state closely above it, it also
fires while the platform replays history.
-/

namespace ChartLint.Rule.Alert

open Pattern Source

/-- A call that raises an alert. -/
def call : Pattern :=
  unqualified ++ "Alert" ++ blanks ++ "("

/-- A reference to the realtime state. -/
def realtime : Pattern :=
  Phase.stateReference "Realtime"

/-- How many lines above an alert the test for the realtime state is looked for. -/
def lookback : Nat := 5

/-- The report on one alert. -/
def callFinding? (masked : Text) (m : Match) : Option Finding :=
  let line := Text.lineOf masked m.start
  if realtime.occursIn (contextOf (Text.lines masked) line lookback) then none
  else some (.warning line "Alert() without a State.Realtime check will fire during backtests")

end Alert

/-- Alerts are raised on live data only. -/
def alert : Rule :=
  ofMasked "alert_realtime" "AlertChecker"
    (fun masked => (Alert.call.findAll masked).filterMap (Alert.callFinding? masked))

end ChartLint.Rule
