import ChartLint.Platform
import ChartLint.Rule.Basic
import ChartLint.Source.Declaration
import ChartLint.Source.Lookup
import ChartLint.Source.Phase

/-!
# Resources

Code that compiles and then fails or degrades on the chart: series and indicators created before
the data is loaded, lists that only grow, and drawings that overwrite each other because their tag
is the same on every bar.

A tag is a literal, so it is read from the script; where it starts and ends is decided on the
masked twin.
-/

namespace ChartLint.Rule.Resource

open Pattern Source

/-! ## Creation -/

/-- How messages name the place of a statement. The phase in which the data is loaded has no
name: nothing that is created there is reported. -/
def placeNames : List (Option Phase × String) :=
  [(some .setDefaults, "State.SetDefaults"), (some .configure, "State.Configure"),
   (some .barUpdate, "OnBarUpdate()"), (none, "a field initializer")]

/-- The name of a place; a fault where it has none. -/
def placeName (phase : Option Phase) : Except Fault String :=
  match placeNames.lookup phase with
  | some name => .ok name
  | none => .error (.unknownPhase (phase.elim "None" Phase.name))

theorem exists_placeName {phase : Option Phase} (h : phase ≠ some .dataLoaded) :
    ∃ name, placeName phase = .ok name := by
  rcases phase with _ | phase
  · exact ⟨_, rfl⟩
  · cases phase with
    | dataLoaded => exact absurd rfl h
    | setDefaults | configure | barUpdate => exact ⟨_, rfl⟩

/-- The creation of a series for this script; keeps the type of its values. -/
def seriesCreation : Pattern :=
  .edge ++ "new" ++ gap ++ "Series" ++ blanks ++ "<" ++ blanks ++ .keep .name word ++ blanks ++ ">"
    ++ blanks ++ "(" ++ blanks ++ "this" ++ .edge

/-- The assignment of a new indicator; keeps its name. The equals sign is not the end of a
comparison. -/
def indicatorCreation (p : Platform) : Pattern :=
  .notAfter (oneOf ['=', '!', '<', '>']) ++ "=" ++ blanks ++ .keep .name (anyWord p.indicators)
    ++ blanks ++ "("

/-- The report on a series that is created in a phase. -/
def seriesFinding? (masked : Text) (phase : Option Phase) (m : Match) :
    Except Fault (Option Finding) :=
  if phase = some .dataLoaded then
    .ok none
  else
    (placeName phase).map (fun place =>
      let type := String.ofList (m.part .name masked)
      some (.error (Text.lineOf masked m.start)
        (s!"new Series<{type}>(this) created in {place}; "
          ++ "it must be created in State.DataLoaded")))

/-- The reports on series that are created before or after the data is loaded. -/
def seriesFindings (masked : Text) : Except Fault (List Finding) :=
  let ms := Phase.marks masked
  (seriesCreation.findAll masked).filterMapM (fun m =>
    seriesFinding? masked (Phase.at? ms m.start) m)

/-- The places in front of the phase in which the data is loaded. -/
def earlyPlaces : List (Option Phase) :=
  [some .setDefaults, some .configure, none]

/-- The report on an indicator that is created in a phase. -/
def indicatorFinding? (masked : Text) (phase : Option Phase) (m : Match) :
    Except Fault (Option Finding) :=
  if earlyPlaces.contains phase then
    (placeName phase).map (fun place =>
      let name := String.ofList (m.part .name masked)
      some (.error (Text.lineOf masked m.start)
        (s!"Indicator {name}() created in {place}; "
          ++ "it must be created in State.DataLoaded")))
  else
    .ok none

/-- The reports on indicators that are created before the data is loaded. -/
def indicatorFindings (p : Platform) (masked : Text) : Except Fault (List Finding) :=
  let ms := Phase.marks masked
  ((indicatorCreation p).findAll masked).filterMapM (fun m =>
    indicatorFinding? masked (Phase.at? ms m.start) m)

/-! ## Lists -/

/-- The declaration of a list; keeps the name of the variable. -/
def listDeclaration : Pattern :=
  .edge ++ "List" ++ blanks ++ "<" ++ few1 (noneOf [';', '=', '(', ')', '{', '}']) ++ ">" ++ gap
    ++ .keep .name word ++ blanks ++ .one (oneOf [';', '=', ',', ')'])

/-- A member of a variable, up to the dot. -/
def memberOf (list : Text) : Pattern :=
  .edge ++ literal list ++ blanks ++ "." ++ blanks

/-- A call that makes a list longer. -/
def growth (list : Text) : Pattern :=
  memberOf list ++ anyWord ["Add", "AddRange", "Insert"] ++ blanks ++ "("

/-- A sign that a list is kept short: a call that removes entries or a test of its size. -/
def bound (list : Text) : Pattern :=
  .alt
    (memberOf list ++ anyWord ["Clear", "RemoveAt", "RemoveRange", "RemoveAll", "Remove"]
      ++ blanks ++ "(")
    (memberOf list ++ "Count" ++ blanks ++ anyWord [">=", ">", "=="])

/-- A declared list variable and where its name stands. -/
structure ListVariable where
  name : Text
  offset : Nat
deriving DecidableEq, Repr

/-- Keeps the first declaration of each variable. -/
def firstOfEach : List ListVariable → List ListVariable
  | [] => []
  | v :: rest => v :: (firstOfEach rest).filter (fun w => w.name != v.name)

/-- The list variables of a script, each once. -/
def listVariables (masked : Text) : List ListVariable :=
  firstOfEach ((listDeclaration.findAll masked).map
    (fun m => ⟨m.part .name masked, (m.span .name).start⟩))

/-- Whether a list is added to and never kept short. -/
def growsForever (masked list : Text) : Bool :=
  (growth list).occursIn masked && !(bound list).occursIn masked

/-- The reports on lists that only grow. -/
def listFindings (masked : Text) : List Finding :=
  ((listVariables masked).filter (fun v => growsForever masked v.name)).map (fun v =>
    let name := String.ofList v.name
    .warning (Text.lineOf masked v.offset)
      (s!"List \"{name}\" grows without bound (no Clear/RemoveAt/Count check); "
        ++ "memory use will climb on long charts"))

/-! ## Tags of drawings -/

/-- A drawing call up to the comma in front of its tag; keeps the method. -/
def drawing : Pattern :=
  .edge ++ "Draw." ++ .keep .kind word ++ blanks ++ "(" ++ blanks ++ "this" ++ blanks ++ ","

/-- A literal at the start of a tag; keeps its text. -/
def tagLiteral : Pattern :=
  many (oneOf ['$', '@']) ++ "\"" ++ .keep .name (many (noneOf ['"'])) ++ "\""

/-- A sign that code changes from bar to bar. -/
def varying : Pattern :=
  anyOf
    [anyCase "CurrentBar",
      anyCase "Time" ++ maybe (anyCase "s") ++ blanks ++ "[",
      anyCase "count", anyCase "tagN", "++", anyCase "index", anyCase "idx"]

/-- The expression that a drawing call passes as its tag, as a span of offsets. -/
def tagSpan (src : Source) (call : Match) : Span :=
  let skipped := ((src.code.drop call.stop).takeWhile Text.isBlank).length
  argumentAt src.masked (call.stop + skipped)

/-- Whether a tag expression is an interpolated literal with a hole in it. -/
def isInterpolated (expr content : Text) : Bool :=
  (Text.trimStartBy (· == '@') expr).head? == some '$' && List.contains content '{'

/-- The tag of a drawing call if it is a literal and nothing on the call's line or in the tag
expression varies from bar to bar. -/
def staticTag? (src : Source) (call : Match) : Except Fault (Option Text) :=
  let span := tagSpan src call
  let expr := src.code.within span
  match tagLiteral.matchAt? (Cursor.ofOffset expr 0) with
  | none => .ok none
  | some m =>
    let content := m.part .name expr
    (lineAt (Text.lines src.masked) (Text.lineOf src.masked call.start)).map (fun line =>
      if varying.occursIn (Text.joinLines [line, src.masked.within span])
          || isInterpolated expr content then
        none
      else
        some content)

/-- The report on one drawing call. -/
def drawingFinding? (p : Platform) (src : Source) (call : Match) :
    Except Fault (Option Finding) :=
  let method := String.ofList (call.part .kind src.masked)
  if !p.perBarDrawMethods.contains method then
    .ok none
  else
    (staticTag? src call).map (fun fixed =>
      match fixed with
      | none => none
      | some content =>
        let tag := String.ofList content
        if p.fixedDrawTags.contains tag then
          none
        else
          some (.error (Text.lineOf src.masked call.start)
            (s!"Draw.{method} uses static tag \"{tag}\"; each bar overwrites the previous "
              ++ s!"drawing. Use \"{tag}\" + CurrentBar")))

/-- The reports on tags that repeat. -/
def drawingFindings (p : Platform) (src : Source) : Except Fault (List Finding) :=
  (drawing.findAll src.masked).filterMapM (drawingFinding? p src)

/-- The reports of the rule. -/
def findings (p : Platform) (src : Source) : Except Fault (List Finding) := do
  let series ← seriesFindings src.masked
  let indicators ← indicatorFindings p src.masked
  let drawings ← drawingFindings p src
  return series ++ indicators ++ listFindings src.masked ++ drawings

end Resource

/-- Objects are created in time, lists are bounded and drawings keep apart. -/
def resource (p : Platform) : Rule :=
  ⟨"memory", "MemoryChecker", Resource.findings p⟩

end ChartLint.Rule
