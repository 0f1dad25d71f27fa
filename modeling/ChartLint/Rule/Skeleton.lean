import ChartLint.Platform
import ChartLint.Rule.Basic
import ChartLint.Source.Declaration

/-!
# Skeleton of a script

A script declares one class that derives from `Indicator` or `Strategy`, handles the states of its
life, sets its defaults, lives in the namespace of its base, and, if it is a strategy, names in its
stops and targets only signals that it enters with.

Signal names are literals, so they are searched in the script itself; a match that starts in a
comment or a literal does not count.
-/

namespace ChartLint.Rule.Skeleton

open Pattern Source

/-! ## Patterns -/

/-- The head of a protected overriding method without parameters. -/
def protectedOverride (method : String) : Pattern :=
  "protected" ++ gap ++ "override" ++ gap ++ "void" ++ gap ++ method ++ blanks ++ noParameters

/-- A test for a state. -/
def stateBranch (state : String) : Pattern :=
  "State" ++ blanks ++ "==" ++ blanks ++ "State." ++ state ++ .edge

/-- The creation of a series. -/
def seriesCreation : Pattern :=
  "new" ++ gap ++ "Series" ++ blanks ++ "<"

/-- An assignment from an indicator's factory method. -/
def indicatorCreation (p : Platform) : Pattern :=
  "=" ++ blanks ++ anyWord p.indicators ++ blanks ++ "("

/-- The method name of an order that opens a position. -/
def entryMethod : Pattern :=
  .edge ++ "Enter" ++ anyWord ["Long", "Short"] ++ wordTail ++ blanks ++ "("

/-- The text between two quotes. -/
def quotedName : Pattern :=
  "\"" ++ .keep .name (many1 (noneOf ['"'])) ++ "\""

/-- An entry order up to the first literal among its arguments; keeps the literal's text. -/
def entrySignal : Pattern :=
  entryMethod ++ few (noneOf [';']) ++ quotedName

/-- A stop or a target for a named signal; keeps the method and the signal. -/
def riskSignal : Pattern :=
  .edge ++ .keep .kind (anyWord ["SetStopLoss", "SetProfitTarget", "SetTrailStop"]) ++ blanks
    ++ "(" ++ blanks ++ quotedName

/-- A trace of code that manages an open position. -/
def positionManagement : Pattern :=
  anyWord ["breakEven", "entryPrice", "Position.MarketPosition"]

/-- The default name of the script. -/
def nameDefault : Pattern :=
  .edge ++ "Name" ++ blanks ++ "=" ++ blanks ++ "\""

/-- The default description of the script. -/
def descriptionDefault : Pattern :=
  .edge ++ "Description" ++ blanks ++ "=" ++ blanks ++ many (oneOf ['@', '$']) ++ "\""

/-- The default mode of calculation. -/
def calculateDefault : Pattern :=
  .edge ++ "Calculate" ++ blanks ++ "=" ++ blanks ++ "Calculate." ++ word

/-! ## Checks -/

/-- A finding on the whole script if a condition holds. -/
def wholeIf (holds : Bool) (finding : Finding) : List Finding :=
  if holds then [finding] else []

/-- Whether the script creates indicators or series. -/
def createsSeries (p : Platform) (masked : Text) : Bool :=
  seriesCreation.occursIn masked || (indicatorCreation p).occursIn masked

/-- The methods of the script's life are there and handle their states. -/
def lifecycle (p : Platform) (src : Source) : List Finding :=
  let misses (shape : Pattern) : Bool := !shape.occursIn src.code
  let missesState (state : String) : Bool := misses (stateBranch state)
  let unhandled (state : String) : List Finding :=
    wholeIf (missesState state) (.error 0 s!"OnStateChange() does not handle State.{state}")
  let states :=
    if misses (protectedOverride "OnStateChange") then
      [.error 0 "OnStateChange() method is missing"]
    else
      unhandled "SetDefaults" ++ unhandled "Configure"
        ++ wholeIf (missesState "DataLoaded" && createsSeries p src.masked)
          (.warning 0 ("Indicators or series are created but OnStateChange() has no "
            ++ "State.DataLoaded branch"))
  states
    ++ wholeIf (misses (protectedOverride "OnBarUpdate"))
      (.error 0 "OnBarUpdate() method is missing")

/-- The script sets its name, its description and its mode of calculation. -/
def defaults (code : Text) : List Finding :=
  wholeIf (!nameDefault.occursIn code) (.warning 0 "Name is not set in State.SetDefaults")
    ++ wholeIf (!descriptionDefault.occursIn code)
      (.warning 0 "Description is not set in State.SetDefaults")
    ++ wholeIf (!calculateDefault.occursIn code)
      (.warning 0 "Calculate mode is not set (defaults to Calculate.OnBarClose)")

/-- The script's namespace has the segment that goes with its base class. -/
def packaging (p : Platform) (base : String) (src : Source) : List Finding :=
  match namespaceDeclaration.find? src.masked with
  | none => [.error 0 "No namespace declared"]
  | some m =>
    let path := m.part .name src.code
    let expected := p.namespaceFor base
    if expected.isEmpty || (Text.split '.' path).contains expected.toList then
      []
    else
      let shown := String.ofList path
      [.error (Text.lineOf src.masked m.start)
        (s!"Namespace {shown} does not match base class {base} "
          ++ s!"(expected a namespace containing {expected})")]

/-- The signals that the script enters with. -/
def entrySignals (src : Source) : Except Fault (List Text) :=
  (entrySignal.findAll src.code).filterMapM (fun m =>
    (src.inToken m.start).map (fun hidden =>
      if hidden then none else some (m.part .name src.code)))

/-- The report on a stop or a target whose signal is none of those that the script enters with. -/
def unknownSignal (src : Source) (m : Match) : Finding :=
  let method := String.ofList (m.part .kind src.code)
  let signal := String.ofList (m.part .name src.code)
  .error (Text.lineOf src.code m.start)
    s!"{method} signal \"{signal}\" does not match any EnterLong/EnterShort signal name"

/-- The report on one stop or target, if its signal is unknown. -/
def riskFinding? (src : Source) (known : List Text) (m : Match) : Except Fault (Option Finding) :=
  (src.inToken m.start).map (fun hidden =>
    if hidden || known.contains (m.part .name src.code) then none else some (unknownSignal src m))

/-- A strategy enters, names only signals that it enters with, and follows its executions when it
manages a position. -/
def signals (src : Source) : Except Fault (List Finding) := do
  let known ← entrySignals src
  let unknown ← (riskSignal.findAll src.code).filterMapM (riskFinding? src known)
  return wholeIf (!entryMethod.occursIn src.masked)
      (.warning 0 "Strategy never calls EnterLong/EnterShort")
    ++ unknown
    ++ wholeIf
      (positionManagement.occursIn src.masked
        && !Text.isPartOf "OnExecutionUpdate".toList src.masked)
      (.warning 0 "Position management detected but OnExecutionUpdate() is not overridden")

/-- All checks, once the class is found. -/
def findings (p : Platform) (src : Source) : Except Fault (List Finding) :=
  match classDeclaration.find? src.code with
  | none => .ok [.error 0 "No public class deriving from Indicator or Strategy found"]
  | some m =>
    let base := String.ofList (m.part .kind src.code)
    let always := lifecycle p src ++ defaults src.code ++ packaging p base src
    if base = "Strategy" then (signals src).map (always ++ ·) else .ok always

end Skeleton

/-- The script has the parts that the platform calls. -/
def skeleton (p : Platform) : Rule :=
  ⟨"structure", "StructureChecker", Skeleton.findings p⟩

end ChartLint.Rule
