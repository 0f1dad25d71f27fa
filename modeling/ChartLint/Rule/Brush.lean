import ChartLint.Rule.Basic
import ChartLint.Source.Declaration
import ChartLint.Source.Lookup
import ChartLint.Source.Window

/-!
# Brush properties

The platform cannot write a brush to a workspace file. A public brush property therefore carries
the attribute that keeps it out of the file, and has a companion: a string property, named after it,
that converts it in both directions.
-/

namespace ChartLint.Rule.Brush

open Pattern Source

/-! ## The attribute -/

/-- The attribute that keeps a property out of the workspace file: first on its line, or behind an
opening bracket or a comma, with or without a path in front of its name. -/
def xmlIgnore : Pattern :=
  .alt (.textStart ++ blanks) (.one (oneOf ['[', ',']) ++ blanks)
    ++ .star (word ++ ".") ++ "XmlIgnore" ++ .edge

/-- How many lines above a declaration its attributes are looked for. -/
def lookback : Nat := 5

/-- Whether one of the lines above a declaration, nearest first, has the attribute. A line that
ends a member ends the search, but its own attribute still counts. -/
def ignoredAbove : List Text → Bool
  | [] => false
  | line :: rest => xmlIgnore.occursIn line || (!memberEnd.occursIn line && ignoredAbove rest)

/-- Whether the declaration on a line has the attribute, on its line or above it; a fault where
there is no such line. -/
def isIgnored? (ls : List Text) (line : Nat) : Except Fault Bool := do
  let own ← lineAt ls line
  let above ← linesAbove ls line lookback
  return xmlIgnore.occursIn own || ignoredAbove above

/-- For the line of an offset the question has an answer, also in a text with as many lines. -/
theorem exists_isIgnored? {t u : Text} (h : (Text.lines u).length = (Text.lines t).length)
    (offset : Nat) : ∃ ignored, isIgnored? (Text.lines u) (Text.lineOf t offset) = .ok ignored := by
  obtain ⟨own, hown⟩ := exists_lineAt h offset
  have hline := Text.lineOf_le_length_lines t offset
  rw [isIgnored?, hown, linesAbove_eq (h ▸ hline)]
  exact ⟨_, rfl⟩

/-! ## The property and its companion -/

/-- The declaration of a brush property with the given name shape, up to its brace. -/
def declarationOf (name : Pattern) : Pattern :=
  "public" ++ gap ++ "Brush" ++ gap ++ name ++ blanks ++ openBrace

/-- The declaration of a brush property; keeps its name. -/
def declaration : Pattern :=
  declarationOf (.keep .name word)

/-- What a companion's name has behind the name of its property. -/
def companionEnding : Text :=
  "Serializable".toList

/-- The declaration of the companion of a property, up to its brace. -/
def companion (prop : Text) : Pattern :=
  "public" ++ gap ++ "string" ++ gap ++ literal (prop ++ companionEnding) ++ blanks ++ openBrace

/-- The conversion of a property to a string. -/
def writesBrush (prop : Text) : Pattern :=
  "Serialize.BrushToString" ++ blanks ++ "(" ++ blanks ++ literal prop ++ blanks ++ ")"

/-- The conversion of a string to a property. -/
def readsBrush (prop : Text) : Pattern :=
  .edge ++ literal prop ++ blanks ++ "=" ++ blanks ++ "Serialize.StringToBrush" ++ blanks ++ "("
    ++ blanks ++ "value" ++ blanks ++ ")"

/-- The braces of the companion of a property and what stands between them. -/
def companionBody? (masked prop : Text) : Option Text :=
  ((companion prop).find? masked).map (fun m =>
    let opener := m.stop - 1
    Text.slice masked opener (matchingBrace masked opener + 1))

/-- Whether the companion of a property converts in both directions. -/
def converts (masked prop : Text) : Bool :=
  match companionBody? masked prop with
  | none => false
  | some body => (writesBrush prop).occursIn body && (readsBrush prop).occursIn body

/-! ## Findings -/

/-- The report on the attribute of a property, which it may have. -/
def attributeFinding? (ignored : Bool) (line : Nat) (prop : Text) : Option Finding :=
  let name := String.ofList prop
  if ignored then
    none
  else
    some ((Finding.error line
      (s!"Brush property \"{name}\" lacks [XmlIgnore]; saving or loading the "
        ++ "workspace will fail")).about name).mendable

/-- The report on the companion of a property. -/
def companionFinding? (masked : Text) (line : Nat) (prop : Text) : Option Finding :=
  let name := String.ofList prop
  let twin := String.ofList (prop ++ companionEnding)
  if !(companion prop).occursIn masked then
    some ((Finding.error line
      (s!"Brush property \"{name}\" has no \"{twin}\" string "
        ++ "companion; its value will not be serialized")).about name).mendable
  else if converts masked prop then
    none
  else
    some ((Finding.error line
      (s!"Companion \"{twin}\" must use "
        ++ s!"Serialize.BrushToString({name}) and Serialize.StringToBrush(value)")).about name)

/-- The reports on one declaration; a property that is named like a companion needs none. -/
def propertyFindings (masked : Text) (m : Match) : Except Fault (List Finding) :=
  let prop := m.part .name masked
  let line := Text.lineOf masked m.start
  if companionEnding.isSuffixOf prop then
    .ok []
  else
    (isIgnored? (Text.lines masked) line).map (fun ignored =>
      (attributeFinding? ignored line prop).toList ++ (companionFinding? masked line prop).toList)

/-- The reports of the rule. -/
def findings (masked : Text) : Except Fault (List Finding) :=
  (declaration.findAll masked).flatMapM (propertyFindings masked)

end Brush

/-- Public brush properties survive saving and loading. -/
def brush : Rule :=
  ⟨"brush_serialization", "BrushChecker", fun src => Brush.findings src.masked⟩

end ChartLint.Rule
