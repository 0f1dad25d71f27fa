import ChartLint.Rule.Basic
import ChartLint.Source.Declaration
import ChartLint.Source.Phase

/-!
# Secondary series

A script that adds data series is updated for each of them. It adds them while it is configured,
tells them apart at the start of its bar update, waits until each has bars, and refers only to
series that it added.

The number of a series is written in decimal digits. A numeral that is too long to be read makes
the rule give up.
-/

namespace ChartLint.Rule.Series

open Pattern Source

/-- A call that adds a series. -/
def addition : Pattern :=
  unqualified ++ "AddDataSeries" ++ blanks ++ "("

/-- The collections that hold one entry per series. -/
def collections : List String :=
  ["BarsArray", "Closes", "Opens", "Highs", "Lows", "Medians", "Typicals", "Volumes", "Times",
   "CurrentBars"]

/-- A reference to a series by its number; keeps the digits. -/
def reference : Pattern :=
  .alt
    (.edge ++ anyWord collections ++ blanks ++ "[" ++ blanks ++ .keep .name digits ++ blanks ++ "]")
    (.edge ++ "BarsInProgress" ++ blanks ++ "==" ++ blanks ++ .keep .name digits)

/-- The number of the series that is being updated. -/
def inProgress : Pattern :=
  .edge ++ "BarsInProgress" ++ .edge

/-- The bar count of one series. -/
def barCount (index : Nat) : Pattern :=
  .edge ++ "CurrentBars" ++ blanks ++ "[" ++ blanks ++ toString index ++ blanks ++ "]"

/-- How many lines from the opening brace of the bar update count as its start. -/
def guardWindow : Nat := 15

/-- The reports on series that are added in the wrong place. -/
def placement (masked : Text) (additions : List Match) : List Finding :=
  let ms := Phase.marks masked
  additions.filterMap (fun m =>
    match Phase.at? ms m.start with
    | some .configure => none
    | phase =>
      let place := if phase = some .barUpdate then "OnBarUpdate()" else "outside State.Configure"
      some (.error (Text.lineOf masked m.start)
        s!"AddDataSeries() called in {place}; it must be called in State.Configure"))

/-- The report on a bar update that does not tell its series apart. -/
def progressGuard (masked : Text) (count : Nat) : List Finding :=
  match methodBody? masked "OnBarUpdate".toList with
  | none => []
  | some body =>
    let line := Text.lineOf masked body.start
    let head := Text.joinLines (((Text.lines masked).drop (line - 1)).take guardWindow)
    if inProgress.occursIn head then
      []
    else
      [.error line
        (s!"{count} AddDataSeries() call(s) but OnBarUpdate() does not start with a "
          ++ "BarsInProgress check; secondary series will run the primary logic")]

/-- The reports on series whose bars are never counted. -/
def barCounts (masked : Text) (count : Nat) : List Finding :=
  ((List.range' 1 count).filter (fun index => !(barCount index).occursIn masked)).map
    (fun index => .warning 0
      s!"No CurrentBars[{index}] check; secondary series {index} may not have enough bars")

/-- The number that a text writes. A text that is no run of decimal digits, the empty one among
them, writes none, and a run that is too long is not read. -/
def numberOf (written : Text) : Except Fault Nat :=
  if written.isEmpty || !written.all Text.isDecimal then
    .error (.noNumeral written)
  else if Text.digitLimit < written.length then
    .error (.longNumeral written.length)
  else
    .ok (Text.decimalValue written)

/-- The report on one reference to a series. -/
def referenceFinding (masked : Text) (count : Nat) (m : Match) : Except Fault (Option Finding) :=
  (numberOf (m.part .name masked)).map (fun index =>
    if index ≤ count then
      none
    else
      let shown := String.ofList (m.text masked)
      some (.error (Text.lineOf masked m.start)
        (s!"{shown} refers to series {index} but only {count} "
          ++ "AddDataSeries() call(s) exist")))

/-- The reports on references to series that do not exist. -/
def indexRange (masked : Text) (count : Nat) : Except Fault (List Finding) :=
  (reference.findAll masked).filterMapM (referenceFinding masked count)

/-- The reports of the rule; a script without secondary series has none. -/
def findings (masked : Text) : Except Fault (List Finding) :=
  match addition.findAll masked with
  | [] => .ok []
  | additions =>
    let count := additions.length
    (indexRange masked count).map (fun outOfRange =>
      placement masked additions ++ progressGuard masked count ++ barCounts masked count
        ++ outOfRange)

end Series

/-- Secondary series are added, told apart and counted. -/
def series : Rule :=
  ⟨"multi_timeframe", "MultiTimeframeChecker", fun src => Series.findings src.masked⟩

end ChartLint.Rule
