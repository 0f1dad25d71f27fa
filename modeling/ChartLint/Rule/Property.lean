import ChartLint.Rule.Basic
import ChartLint.Source.Declaration
import ChartLint.Source.Lookup
import ChartLint.Source.Window

/-!
# Attributes of properties

A public automatic property is a setting of the script. Its attributes make it configurable, give
it a place in the dialog, and bound its value if it is a number.
-/

namespace ChartLint.Rule.Property

open Pattern Source

/-- The types whose values a range can bound. -/
def numericTypes : List String :=
  ["int", "double", "float", "decimal", "long"]

/-- The types on which a range has no effect. -/
def plainTypes : List String :=
  ["bool", "string"]

/-- The declaration of a public automatic property; keeps its type and its name. -/
def declaration : Pattern :=
  "public" ++ gap ++ .keep .kind (anyWord (numericTypes ++ plainTypes ++ ["Brush", "TimeSpan"]))
    ++ gap ++ .keep .name word ++ blanks ++ openBrace ++ blanks ++ "get" ++ blanks ++ ";" ++ blanks
    ++ "set" ++ blanks ++ ";" ++ blanks ++ .one (· == '}')

/-- The attribute that shows a property in the dialog. -/
def display : Pattern :=
  "[" ++ blanks ++ "Display" ++ blanks ++ "("

/-- The attribute that bounds a number. -/
def range : Pattern :=
  .edge ++ "Range" ++ blanks ++ "("

/-- How many lines above a declaration its attributes are looked for. -/
def lookback : Nat := 8

/-- Whether a line ends the attribute block above a declaration. -/
def endsBlock (line : Text) : Bool :=
  memberEnd.occursIn line || "#region".toList.isPrefixOf (Text.trim line)

/-- The attributes of the declaration on a line: what stands above it down from the previous
member, and what stands in front of it; a fault where there is no such line. -/
def attributeBlock (ls : List Text) (line : Nat) : Except Fault Text := do
  let own ← lineAt ls line
  let above ← linesAbove ls line lookback
  let block := above.takeWhile (fun l => !endsBlock l)
  return Text.joinLines (block.reverse ++ [Text.upTo "public".toList own])

/-- The report on the attributes that every setting but a brush needs. -/
def settingFindings (attributes : Text) (line : Nat) (name : String) : List Finding :=
  (if Text.isPartOf "[NinjaScriptProperty".toList attributes then []
    else [(Finding.warning line
      s!"Property \"{name}\" lacks [NinjaScriptProperty]; users cannot configure it").about name])
  ++ (if display.occursIn attributes then []
    else [(Finding.warning line
      s!"Property \"{name}\" lacks [Display]; it has no name or order in the UI").about name])

/-- The report on the range of a property. -/
def rangeFindings (attributes : Text) (line : Nat) (type name : String) : List Finding :=
  let hasRange := range.occursIn attributes
  if numericTypes.contains type && !hasRange then
    [(Finding.warning line
      s!"Numeric property \"{name}\" ({type}) lacks [Range]; input is not validated").about name]
  else if plainTypes.contains type && hasRange then
    [(Finding.warning line s!"[Range] on {type} property \"{name}\" has no effect").about name]
  else
    []

/-- The reports on one declaration; companions of brush properties are no settings. -/
def propertyFindings (masked : Text) (m : Match) : Except Fault (List Finding) :=
  let type := String.ofList (m.part .kind masked)
  let prop := m.part .name masked
  let name := String.ofList prop
  let line := Text.lineOf masked m.start
  if "Serializable".toList.isSuffixOf prop then
    .ok []
  else
    (attributeBlock (Text.lines masked) line).map (fun attributes =>
      (if type = "Brush" then [] else settingFindings attributes line name)
        ++ rangeFindings attributes line type name)

/-- The reports of the rule. -/
def findings (masked : Text) : Except Fault (List Finding) :=
  (declaration.findAll masked).flatMapM (propertyFindings masked)

end Property

/-- Public automatic properties carry the attributes of a setting. -/
def property : Rule :=
  ⟨"properties", "PropertyChecker", fun src => Property.findings src.masked⟩

end ChartLint.Rule
