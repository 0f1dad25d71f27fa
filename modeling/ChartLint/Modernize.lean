import ChartLint.Lexing
import ChartLint.Source.Declaration

/-!
# Modernization

Brings a script in line with the current platform in four passes: its namespace, its imports, the
drawing calls of the previous release, and the previous release's flag for the mode of calculation.
Each pass looks at a fresh mask of the text so far, so comments and literals stay as they are, and
records what it changed.
-/

namespace ChartLint

/-- The two kinds of script. -/
inductive ScriptKind where
  | indicator
  | strategy
deriving DecidableEq, Repr

namespace ScriptKind

open Pattern

/-- The name of a kind in answers and requests. -/
def name : ScriptKind → String
  | .indicator => "indicator"
  | .strategy => "strategy"

/-- The kind that a request names, whatever its case and the blanks around it. Only an ASCII letter
has one of the letters of the two names as its lower case. -/
def ofRequest? (s : String) : Option ScriptKind :=
  let wanted := (Text.trim s.toList).map Char.toLower
  [indicator, strategy].find? (fun kind => kind.name.toList == wanted)

/-- A base class `Strategy`. -/
def strategyBase : Pattern :=
  ":" ++ blanks ++ "Strategy" ++ .edge

/-- The kind of masked text: a strategy if something derives from `Strategy`. -/
def ofMasked (masked : Text) : ScriptKind :=
  if strategyBase.occursIn masked then .strategy else .indicator

/-- The kind of a script. -/
def detect (code : Text) : ScriptKind :=
  ofMasked (Lexing.mask code)

/-- The namespace of a kind. -/
def expectedNamespace : ScriptKind → String
  | .indicator => "NinjaTrader.NinjaScript.Indicators"
  | .strategy => "NinjaTrader.NinjaScript.Strategies"

end ScriptKind

/-- One change to a script. -/
structure Change where
  description : String
  before : String
  after : String
deriving DecidableEq, Repr

/-- A script and the changes made to it so far. -/
structure Revision where
  code : Text
  changes : List Change
deriving DecidableEq, Repr

/-- Makes one more pass over a script. -/
def Revision.andThen (r : Revision) (pass : Text → Revision) : Revision :=
  let next := pass r.code
  ⟨next.code, r.changes ++ next.changes⟩

/-- The outcome of a modernization. -/
structure Modernized where
  kind : ScriptKind
  revision : Revision
deriving DecidableEq, Repr

namespace Modernize

open Pattern Source

/-! ## Namespace -/

/-- Gives the script the namespace of its kind, if it declares one. -/
def fixNamespace (kind : ScriptKind) (code : Text) : Revision :=
  match namespaceDeclaration.find? (Lexing.mask code) with
  | none => ⟨code, []⟩
  | some m =>
    let path := m.span .name
    let current := code.within path
    let expected := kind.expectedNamespace
    if current = expected.toList then
      ⟨code, []⟩
    else
      ⟨Text.splice code path.start path.stop expected.toList,
        [⟨"Namespace corrected", String.ofList current, expected⟩]⟩

/-! ## Imports -/

/-- The namespaces that every script imports. -/
def commonUsings : List String :=
  ["System", "System.ComponentModel", "System.ComponentModel.DataAnnotations",
   "System.Windows.Media", "NinjaTrader.Cbi", "NinjaTrader.Data", "NinjaTrader.Gui.NinjaScript",
   "NinjaTrader.Gui.Tools", "NinjaTrader.NinjaScript", "NinjaTrader.NinjaScript.DrawingTools",
   "NinjaTrader.NinjaScript.Indicators"]

/-- The type of a brush. -/
def brushType : Pattern :=
  .edge ++ "Brush" ++ .edge

/-- The type of a list. -/
def listType : Pattern :=
  .edge ++ "List" ++ blanks ++ "<"

/-- A call of a query method. -/
def queryCall : Pattern :=
  "." ++ anyWord ["Select", "Where", "OrderBy", "OrderByDescending", "Any", "Sum", "Average"]
    ++ blanks ++ "("

/-- The namespaces that a script has to import, in the order in which they are added. -/
def requiredUsings (masked : Text) : List String :=
  commonUsings
    ++ (if brushType.occursIn masked then ["System.Xml.Serialization", "NinjaTrader.Gui"] else [])
    ++ (if listType.occursIn masked then ["System.Collections.Generic"] else [])
    ++ (if queryCall.occursIn masked then ["System.Linq"] else [])

/-- The required namespaces that a script does not import. -/
def missingUsings (masked : Text) : List String :=
  (requiredUsings masked).filter (fun path => !(usingDirective path.toList).occursIn masked)

/-- The end of a region at the start of a line. -/
def regionEnd : Pattern :=
  .lineStart ++ many (oneOf [' ', '\t']) ++ "#endregion"

/-- The offset behind the last line feed in front of an offset. -/
def lineStartBefore (t : Text) (offset : Nat) : Nat :=
  offset - ((t.take offset).reverse.takeWhile (· != '\n')).length

/-- The offset at which imports are added: in front of the first region end, if that stands in
front of the namespace; else in front of the namespace's line; else at the start. -/
def usingsOffset (masked : Text) : Nat :=
  match regionEnd.find? masked, namespaceDeclaration.find? masked with
  | some region, none => region.start
  | some region, some ns =>
    if region.start < ns.start then region.start else lineStartBefore masked ns.start
  | none, some ns => lineStartBefore masked ns.start
  | none, none => 0

/-- The directive that imports a namespace. -/
def directive (path : String) : String :=
  s!"using {path};"

/-- Adds the imports that are missing. -/
def fixUsings (code : Text) : Revision :=
  let masked := Lexing.mask code
  let missing := missingUsings masked
  if missing.isEmpty then
    ⟨code, []⟩
  else
    let newline := Text.lineBreak code
    let block := missing.flatMap (fun path => (directive path).toList ++ newline)
    ⟨Text.insertAt code (usingsOffset masked) block,
      [⟨s!"{missing.length} using directive(s) added", "",
        String.intercalate ", " (missing.map directive)⟩]⟩

/-! ## Constructs of the previous release -/

/-- Replaces the stretches that matches cover, all by the same text. The matches come from the
left without overlap; they are replaced from the right, so that offsets stay valid. -/
def replaceMatches (new : Text) (ms : List Match) (code : Text) : Text :=
  ms.foldr (fun m t => Text.splice t m.start m.stop new) code

/-- A construct of the previous release and what takes its place. -/
structure Replacement where
  shape : Pattern
  new : String
  change : Change

/-- Replaces a construct wherever it occurs outside of comments and literals. -/
def Replacement.apply (r : Replacement) (code : Text) : Revision :=
  match r.shape.findAll (Lexing.mask code) with
  | [] => ⟨code, []⟩
  | ms => ⟨replaceMatches r.new.toList ms code, [r.change]⟩

/-- Makes several replacements, one after the other. -/
def applyAll (rs : List Replacement) (code : Text) : Revision :=
  rs.foldl (fun revision r => revision.andThen r.apply) ⟨code, []⟩

/-- The drawing methods of the previous release that have a successor of the same name. -/
def drawnShapes : List String :=
  ["ArrowUp", "ArrowDown", "Text", "TextFixed", "Line", "Rectangle", "TriangleUp", "TriangleDown",
   "Dot", "Diamond", "Square", "Region", "HorizontalLine", "VerticalLine", "Ray"]

/-- A drawing call of the previous release, its parenthesis not included. -/
def legacyDrawing (shape : String) : Pattern :=
  unqualified ++ "Draw" ++ shape ++ .ahead (blanks ++ "(")

/-- The successor of a drawing method. -/
def drawingReplacement (shape : String) : Replacement where
  shape := legacyDrawing shape
  new := s!"Draw.{shape}"
  change := ⟨"Deprecated drawing method replaced", s!"Draw{shape}(", s!"Draw.{shape}("⟩

/-- The two values of the previous release's flag, with the mode that each stands for. -/
def calculateFlags : List (String × String) :=
  [("true", "OnBarClose"), ("false", "OnEachTick")]

/-- The assignment of the previous release's flag. -/
def legacyCalculate (flag : String) : Pattern :=
  .edge ++ "CalculateOnBarClose" ++ blanks ++ "=" ++ blanks ++ flag ++ blanks ++ ";"

/-- The successor of the flag. -/
def calculateReplacement (flag mode : String) : Replacement where
  shape := legacyCalculate flag
  new := s!"Calculate = Calculate.{mode};"
  change := ⟨"Calculate property modernized", s!"CalculateOnBarClose = {flag}",
    s!"Calculate = Calculate.{mode};"⟩

/-- Replaces the drawing calls of the previous release. -/
def fixDrawings (code : Text) : Revision :=
  applyAll (drawnShapes.map drawingReplacement) code

/-- Replaces the flag for the mode of calculation. -/
def fixCalculate (code : Text) : Revision :=
  applyAll (calculateFlags.map (fun (flag, mode) => calculateReplacement flag mode)) code

/-! ## All passes -/

/-- The kind under which a script is modernized: the requested one, or the detected one. -/
def kindFor (requested : Option String) (code : Text) : ScriptKind :=
  (requested.bind ScriptKind.ofRequest?).getD (ScriptKind.detect code)

/-- Modernizes a script. -/
def run (requested : Option String) (code : Text) : Modernized :=
  let kind := kindFor requested code
  ⟨kind, (((fixNamespace kind code).andThen fixUsings).andThen fixDrawings).andThen fixCalculate⟩

end Modernize

end ChartLint
