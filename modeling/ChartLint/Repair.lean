import ChartLint.Rule.Brush

/-!
# Repair of brush properties

The repair mends what the issues it is given name: it puts the attribute on the line above a brush
property that lacks it, and a companion behind a property that has none. It inserts and never
removes. Each insertion is placed on a fresh mask of the text so far.
-/

namespace ChartLint.Repair

open Pattern Source Rule

/-- The properties that a repair is asked to mend, each once, in order of first mention. -/
def subjects (issues : List Issue) : List String :=
  ((issues.filter (fun i => i.check == Rule.brush.name && i.autoFixable)).filterMap
    (fun i => i.subject.filter (fun s => !s.isEmpty))).eraseDups

/-- The first declaration of a brush property in masked text. -/
def declaration? (masked prop : Text) : Option Match :=
  (Brush.declarationOf (literal prop)).find? masked

/-- The indentation of a line. -/
def indentAt (code : Text) (line : Nat) : Except Fault Text :=
  (lineAt (Text.lines code) line).map Text.indent

/-- Puts the attribute on a line above a property, unless the property has it. -/
def attemptAttribute (newline : Text) (code prop : Text) : Except Fault Text :=
  let masked := Lexing.mask code
  match declaration? masked prop with
  | none => .ok code
  | some m => do
    let line := Text.lineOf code m.start
    let ignored ← Brush.isIgnored? (Text.lines masked) line
    if ignored then
      return code
    else
      let indent ← indentAt code line
      let start ← lineStart code line
      return Text.insertAt code start (indent ++ "[XmlIgnore]".toList ++ newline)

/-- The companion of a property, to be put behind it. -/
def companionBlock (newline indent prop : Text) : Text :=
  let line (t : Text) : Text := newline ++ indent ++ t
  newline
    ++ line "[Browsable(false)]".toList
    ++ line ("public string ".toList ++ prop ++ Brush.companionEnding)
    ++ line ['{']
    ++ line ("    get \x7b return Serialize.BrushToString(".toList ++ prop ++ "); \x7d".toList)
    ++ line ("    set \x7b ".toList ++ prop ++ " = Serialize.StringToBrush(value); \x7d".toList)
    ++ line ['}']

/-- The value that a property is declared with, up to its semicolon. -/
def initialValue : Pattern :=
  many (oneOf [' ', '\t']) ++ "=" ++ many (noneOf [';', '{', '}']) ++ ";"

/-- The offset behind a property whose declaration ends with the brace at `close`: behind its
initial value, if it has one. -/
def declarationEnd (masked : Text) (close : Nat) : Nat :=
  match initialValue.matchAt? (Cursor.ofOffset masked (close + 1)) with
  | some m => m.stop
  | none => close + 1

/-- Puts a companion behind a property, unless there is one. A property whose braces are not closed
gets none. -/
def attemptCompanion (newline : Text) (code prop : Text) : Except Fault Text :=
  let masked := Lexing.mask code
  if (Brush.companion prop).occursIn masked then
    .ok code
  else
    match declaration? masked prop with
    | none => .ok code
    | some m =>
      let close := matchingBrace masked (m.stop - 1)
      if code.length ≤ close then
        .ok code
      else
        (indentAt code (Text.lineOf code m.start)).map (fun indent =>
          Text.insertAt code (declarationEnd masked close) (companionBlock newline indent prop))

/-- Mends one property. -/
def attemptMend (newline : Text) (code : Text) (prop : String) : Except Fault Text := do
  let marked ← attemptAttribute newline code prop.toList
  attemptCompanion newline marked prop.toList

/-- Mends all properties that the issues name. Line breaks are written as the script has them. -/
def attempt (issues : List Issue) (code : Text) : Except Fault Text :=
  (subjects issues).foldlM (attemptMend (Text.lineBreak code)) code

/-! ## The repair does not fail -/

/-- The line of a declaration has an indentation. -/
theorem exists_indentAt (code : Text) (offset : Nat) :
    ∃ indent, indentAt code (Text.lineOf code offset) = .ok indent := by
  obtain ⟨l, hl⟩ := exists_lineAt (t := code) rfl offset
  exact ⟨_, by rw [indentAt, hl, map_ok]⟩

theorem exists_attemptAttribute (newline code prop : Text) :
    ∃ marked, attemptAttribute newline code prop = .ok marked := by
  unfold attemptAttribute
  simp only
  cases declaration? (Lexing.mask code) prop with
  | none => exact ⟨code, rfl⟩
  | some m =>
    obtain ⟨ignored, hignored⟩ := Brush.exists_isIgnored? (Lexing.length_lines_mask code) m.start
    obtain ⟨indent, hindent⟩ := exists_indentAt code m.start
    obtain ⟨start, hstart⟩ := exists_lineStart code m.start
    simp only [hignored, hindent, hstart, ok_bind]
    cases ignored <;> exact ⟨_, rfl⟩

theorem exists_attemptCompanion (newline code prop : Text) :
    ∃ completed, attemptCompanion newline code prop = .ok completed := by
  unfold attemptCompanion
  simp only
  split
  · exact ⟨code, rfl⟩
  · cases declaration? (Lexing.mask code) prop with
    | none => exact ⟨code, rfl⟩
    | some m =>
      obtain ⟨indent, hindent⟩ := exists_indentAt code m.start
      simp only [hindent, map_ok]
      split <;> exact ⟨_, rfl⟩

theorem exists_attemptMend (newline code : Text) (prop : String) :
    ∃ mended, attemptMend newline code prop = .ok mended := by
  obtain ⟨marked, hmarked⟩ := exists_attemptAttribute newline code prop.toList
  obtain ⟨completed, hcompleted⟩ := exists_attemptCompanion newline marked prop.toList
  exact ⟨completed, by rw [attemptMend, hmarked, ok_bind, hcompleted]⟩

/-- **The repair does not fail**, whatever the issues ask for. -/
theorem exists_attempt (issues : List Issue) (code : Text) :
    ∃ repaired, attempt issues code = .ok repaired := by
  unfold attempt
  generalize Text.lineBreak code = newline
  induction subjects issues generalizing code with
  | nil => exact ⟨code, rfl⟩
  | cons prop props ih =>
    obtain ⟨mended, hmended⟩ := exists_attemptMend newline code prop
    obtain ⟨repaired, hrepaired⟩ := ih mended
    exact ⟨repaired, by rw [List.foldlM_cons, hmended, ok_bind, hrepaired]⟩

/-- The repaired script. -/
def run (issues : List Issue) (code : Text) : Text :=
  valueOf (attempt issues code) (exists_attempt issues code)

end ChartLint.Repair
