import ChartLint.Rule.Basic
import ChartLint.Source.Window

/-!
# Signals on every tick

A script that calculates on every tick runs many times within one bar. Its signals need a guard
that compares the current bar with the last bar that signalled, or the same signal repeats.
-/

namespace ChartLint.Rule.Tick

open Pattern Source

/-- The setting that makes a script run on every tick. -/
def perTick : Pattern :=
  .edge ++ "Calculate" ++ blanks ++ "=" ++ blanks ++ "Calculate."
    ++ anyWord ["OnEachTick", "OnPriceChange"] ++ .edge

/-- A call that shows something to the trader: a mark on the chart, an alert or an order. -/
def signal : Pattern :=
  anyOf
    [.edge ++ "Draw."
        ++ anyWord ["ArrowUp", "ArrowDown", "TriangleUp", "TriangleDown", "Diamond", "Dot",
            "Square", "Text"]
        ++ blanks ++ "(",
      unqualified ++ "Alert" ++ blanks ++ "(",
      .edge ++ "Enter" ++ anyWord ["Long", "Short"] ++ wordTail ++ blanks ++ "("]

/-- The name of a variable that remembers a bar. -/
def tracker : Pattern :=
  wordTail ++ .one (oneOf ['l', 'L']) ++ "ast" ++ wordTail

/-- The assignment of a bar number to a tracker. -/
def tracking : Pattern :=
  .edge ++ tracker ++ blanks ++ "=" ++ blanks ++ .alt (maybe "-" ++ digits) "CurrentBar" ++ .edge

/-- The comparison of the current bar with a tracker. -/
def barGuard : Pattern :=
  .alt ("CurrentBar" ++ blanks ++ anyWord ["!=", ">"] ++ blanks ++ tracker)
    (.edge ++ tracker ++ blanks ++ anyWord ["!=", "<"] ++ blanks ++ "CurrentBar" ++ .edge)

/-- How many lines above a signal its guard is looked for. -/
def lookback : Nat := 5

/-- Whether a line, given with its number, signals without a guard on it or closely above it. -/
def isUnguarded (ls : List Text) (numbered : Text × Nat) : Bool :=
  signal.occursIn numbered.1 && !barGuard.occursIn (contextOf ls numbered.2 lookback)

/-- The numbers of the lines that signal without a guard. -/
def unguarded (ls : List Text) : List Nat :=
  ((ls.zipIdx 1).filter (isUnguarded ls)).map (·.2)

/-- The report on one line. -/
def lineFinding (line : Nat) : Finding :=
  .warning line
    ("Signal emitted on every tick without a last-bar guard; "
      ++ "the same signal may fire several times per bar")

/-- The report when no single line can be blamed. -/
def wholeFinding : Finding :=
  .warning 0
    ("Calculate.OnEachTick is used but no last-bar tracking variable and "
      ++ "CurrentBar guard were found; signals may be duplicated")

/-- The reports of the rule. -/
def findings (masked : Text) : List Finding :=
  if !perTick.occursIn masked || !signal.occursIn masked
      || (tracking.occursIn masked && barGuard.occursIn masked) then
    []
  else
    match unguarded (Text.lines masked) with
    | [] => [wholeFinding]
    | lines => lines.map lineFinding

end Tick

/-- Signals of a script that runs on every tick are guarded. -/
def tick : Rule :=
  ofMasked "anti_doublon" "AntiDoublonChecker" Tick.findings

end ChartLint.Rule
