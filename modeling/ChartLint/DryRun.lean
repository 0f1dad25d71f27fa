import ChartLint.Issue
import ChartLint.Platform
import ChartLint.Source.Basic
import ChartLint.Source.Declaration

/-!
# Dry run of a compilation

A second look at the masked script that checks names against the closed tables of the platform. It
asks some questions that the audit asks too, on purpose: a name that is not in a table is a typing
error, which a looser search would accept.
-/

namespace ChartLint

/-- The outcome of a dry run. -/
structure DryRun where
  verdict : Verdict
  errors : List Diagnostic
  warnings : List Diagnostic
deriving DecidableEq, Repr

namespace DryRun

open Pattern Source

/-! ## Patterns -/

/-- A drawing call; keeps the method. -/
def drawCall : Pattern :=
  .edge ++ "Draw." ++ .keep .name word ++ blanks ++ "("

/-- A reference to a platform state; keeps the state. -/
def stateReference : Pattern :=
  unqualified ++ "State." ++ .keep .name word

/-- A call that prints debug output. -/
def printCall : Pattern :=
  unqualified ++ "Print" ++ blanks ++ "("

/-- The type of a series; keeps the type of its values. -/
def seriesType : Pattern :=
  .edge ++ "Series" ++ blanks ++ "<" ++ blanks ++ .keep .name word ++ blanks ++ ">"

/-- A truth value with a range attribute, other attributes between them; keeps its name. -/
def rangedBool : Pattern :=
  "[" ++ blanks ++ "Range" ++ blanks ++ "(" ++ many (noneOf [')']) ++ ")" ++ blanks ++ "]"
    ++ .star (blanks ++ "[" ++ many (noneOf [']']) ++ "]")
    ++ blanks ++ "public" ++ gap ++ "bool" ++ gap ++ .keep .name word

/-- The head of a protected overriding method. -/
def protectedOverride (method : String) : Pattern :=
  "protected" ++ gap ++ "override" ++ gap ++ "void" ++ gap ++ method ++ .edge

/-- The setting that draws an indicator over the prices. -/
def overlaySetting : Pattern :=
  .edge ++ "IsOverlay" ++ blanks ++ "="

/-! ## Checks -/

/-- An error on a line. -/
def error (line : Nat) (message : String) : Diagnostic :=
  ⟨.error, line, message⟩

/-- A warning on a line. -/
def warning (line : Nat) (message : String) : Diagnostic :=
  ⟨.warning, line, message⟩

/-- An error on the whole script if a pattern does not occur. -/
def require (masked : Text) (p : Pattern) (message : String) : List Diagnostic :=
  if p.occursIn masked then [] else [error 0 message]

/-- There is exactly one script class. -/
def classErrors (masked : Text) : List Diagnostic :=
  match classDeclaration.findAll masked with
  | [] => [error 0 "No Indicator/Strategy class found"]
  | [_] => []
  | _ :: second :: _ =>
    [error (Text.lineOf masked second.start) "Several Indicator/Strategy classes in the same file"]

/-- The script has a class, a namespace and the two methods that the platform calls. -/
def frameErrors (masked : Text) : List Diagnostic :=
  classErrors masked
    ++ require masked namespaceDeclaration "Missing namespace"
    ++ require masked (protectedOverride "OnStateChange") "OnStateChange() is missing"
    ++ require masked (protectedOverride "OnBarUpdate") "OnBarUpdate() is missing"

/-- The matches of a pattern whose kept name is not in a table. -/
def unlisted (masked : Text) (p : Pattern) (table : List String) : List (Match × String) :=
  ((p.findAll masked).map (fun m => (m, String.ofList (m.part .name masked)))).filter
    (fun found => !table.contains found.2)

/-- The drawing methods that the platform does not know. -/
def drawErrors (p : Platform) (masked : Text) : List Diagnostic :=
  (unlisted masked drawCall p.drawMethods).map (fun (m, method) =>
    error (Text.lineOf masked m.start) s!"Draw.{method} is not a known drawing method")

/-- The states that the platform does not know. -/
def stateErrors (p : Platform) (masked : Text) : List Diagnostic :=
  let valid := String.intercalate ", " p.states
  (unlisted masked stateReference p.states).map (fun (m, state) =>
    error (Text.lineOf masked m.start) s!"State.{state} is not a valid state (valid: {valid})")

/-- The namespaces that the script has to import and does not. -/
def usingErrors (p : Platform) (masked : Text) : List Diagnostic :=
  p.requiredUsings.flatMap (fun path =>
    require masked (usingDirective path.toList) s!"using {path}; is missing")

/-- The series with an unusual type of values. -/
def seriesWarnings (p : Platform) (masked : Text) : List Diagnostic :=
  (unlisted masked seriesType p.seriesTypes).map (fun (m, type) =>
    warning (Text.lineOf masked m.start)
      s!"Series<{type}> is an unusual series type (expected double, bool or int)")

/-- The truth values with a range. -/
def rangeWarnings (masked : Text) : List Diagnostic :=
  (rangedBool.findAll masked).map (fun m =>
    let name := String.ofList (m.part .name masked)
    warning (Text.lineOf masked m.start) s!"[Range] used on bool property \"{name}\" has no effect")

/-- The lines that print debug output, each once. -/
def printWarnings (masked : Text) : List Diagnostic :=
  ((printCall.findAll masked).map (fun m => Text.lineOf masked m.start)).eraseDups.map (fun line =>
    warning line "Print() call found; remove debug output before release")

/-- An indicator that does not say where it is drawn. -/
def overlayWarnings (masked : Text) : List Diagnostic :=
  match classDeclaration.find? masked with
  | none => []
  | some m =>
    if m.part .kind masked = "Indicator".toList ∧ !overlaySetting.occursIn masked then
      [warning 0
        ("IsOverlay is not set; it defaults to false (separate panel). "
          ++ "Set it to true to draw on the price chart")]
    else
      []

/-- The dry run on masked text. -/
def ofMasked (p : Platform) (masked : Text) : DryRun :=
  let errors := frameErrors masked ++ drawErrors p masked ++ stateErrors p masked
    ++ usingErrors p masked
  let warnings := seriesWarnings p masked ++ rangeWarnings masked ++ printWarnings masked
    ++ overlayWarnings masked
  { verdict := if !errors.isEmpty then .fail else if !warnings.isEmpty then .warn else .pass
    errors := errors
    warnings := warnings }

/-- The dry run of a script. -/
def run (p : Platform) (code : Text) : DryRun :=
  ofMasked p (Lexing.mask code)

end DryRun

end ChartLint
