import ChartLint.Proofs.Lexing.Offsets
import ChartLint.Proofs.Source.Lookup
import ChartLint.Proofs.Steps
import ChartLint.Repair

/-!
# The repair without its lookups

A repair looks up the line of a declaration, its start and the lines above it. Each of these lookups
answers, so each step of a repair has a value: `addAttribute` and `addCompanion` are the texts that the
two steps for one property leave, `mend` is the one after the other, and a run mends one property after
the other (`run_eq`). The equations `addAttribute_def` and `addCompanion_def` say what the steps do, in
terms of the values `lineStartAt` and `indentOf` of the lookups.
-/

namespace ChartLint.Repair

open Pattern Source Text Rule

/-! ## The line of a declaration -/

/-- Where the line of an offset starts. -/
def lineStartAt (t : Text) (offset : Nat) : Nat :=
  valueOf (lineStart t (lineOf t offset)) (exists_lineStart t offset)

theorem lineStart_lineOf (t : Text) (offset : Nat) :
    lineStart t (lineOf t offset) = .ok (lineStartAt t offset) :=
  eq_ok_valueOf _

theorem lineStartAt_append (g x : Text) :
    lineStartAt (g ++ x) g.length = g.length - (lineFront g).length :=
  valueOf_eq _ (lineStart_append g x)

theorem startsLine_lineStartAt (t : Text) {offset : Nat} (h : offset ≤ t.length) :
    Lexing.StartsLine t (lineStartAt t offset) := by
  obtain ⟨start, hstart, hlookup⟩ := Lexing.exists_startsLine_lineOf t h
  have hvalue : lineStartAt t offset = start := valueOf_eq _ (by rw [Source.lineStart, hlookup])
  rwa [hvalue]

/-- The indentation of the line of an offset. -/
def indentOf (code : Text) (offset : Nat) : Text :=
  valueOf (indentAt code (lineOf code offset)) (exists_indentAt code offset)

theorem indentAt_lineOf (code : Text) (offset : Nat) :
    indentAt code (lineOf code offset) = .ok (indentOf code offset) :=
  eq_ok_valueOf _

theorem indentOf_append (g x : Text) : indentOf (g ++ x) g.length = indent (ownLine g x) :=
  valueOf_eq _ (by rw [indentAt, lineAt_append, map_ok])

/-! ## The steps for one property -/

/-- The script with the attribute of a property. -/
def addAttribute (newline code prop : Text) : Text :=
  valueOf (attemptAttribute newline code prop) (exists_attemptAttribute newline code prop)

/-- **The first step** leaves a property alone that is not declared or has the attribute, and puts the
attribute on a line of its own otherwise. -/
theorem addAttribute_def (newline code prop : Text) :
    addAttribute newline code prop
      = match declaration? (Lexing.mask code) prop with
        | none => code
        | some m =>
          if Brush.isIgnored? (lines (Lexing.mask code)) (lineOf code m.start) = .ok true then
            code
          else
            insertAt code (lineStartAt code m.start)
              (indentOf code m.start ++ "[XmlIgnore]".toList ++ newline) := by
  refine valueOf_eq _ ?_
  simp only [attemptAttribute]
  cases declaration? (Lexing.mask code) prop with
  | none => rfl
  | some m =>
    obtain ⟨ignored, hignored⟩ := Brush.exists_isIgnored? (Lexing.length_lines_mask code) m.start
    simp only [hignored, indentAt_lineOf, lineStart_lineOf, ok_bind, Except.ok.injEq]
    cases ignored <;> rfl

/-- The script with the companion of a property. -/
def addCompanion (newline code prop : Text) : Text :=
  valueOf (attemptCompanion newline code prop) (exists_attemptCompanion newline code prop)

/-- **The second step** leaves a property alone that has a companion, is not declared, or has braces that
do not close, and puts the companion behind its declaration otherwise. -/
theorem addCompanion_def (newline code prop : Text) :
    addCompanion newline code prop
      = if (Brush.companion prop).occursIn (Lexing.mask code) then
          code
        else
          match declaration? (Lexing.mask code) prop with
          | none => code
          | some m =>
            let close := matchingBrace (Lexing.mask code) (m.stop - 1)
            if code.length ≤ close then
              code
            else
              insertAt code (declarationEnd (Lexing.mask code) close)
                (companionBlock newline (indentOf code m.start) prop) := by
  refine valueOf_eq _ ?_
  simp only [attemptCompanion]
  split
  · rfl
  · cases declaration? (Lexing.mask code) prop with
    | none => rfl
    | some m =>
      simp only [indentAt_lineOf, map_ok]
      split <;> rfl

/-- The script with one property mended. -/
def mend (newline code : Text) (prop : String) : Text :=
  addCompanion newline (addAttribute newline code prop.toList) prop.toList

theorem attemptMend_eq (newline code : Text) (prop : String) :
    attemptMend newline code prop = .ok (mend newline code prop) := by
  have hattribute : attemptAttribute newline code prop.toList
      = .ok (addAttribute newline code prop.toList) := eq_ok_valueOf _
  rw [attemptMend, hattribute, ok_bind]
  exact eq_ok_valueOf _

/-! ## A run -/

theorem attempt_eq (issues : List Issue) (code : Text) :
    attempt issues code = .ok ((subjects issues).foldl (mend (lineBreak code)) code) :=
  foldlM_eq_ok (fun t prop => attemptMend_eq (lineBreak code) t prop) _ code

/-- **A run** mends one property after the other. -/
theorem run_eq (issues : List Issue) (code : Text) :
    run issues code = (subjects issues).foldl (mend (lineBreak code)) code :=
  valueOf_eq _ (attempt_eq issues code)

/-- The repair looks at the properties that the issues name, and at nothing else of the issues. -/
theorem run_congr_subjects {issues issues' : List Issue} (h : subjects issues' = subjects issues)
    (code : Text) : run issues' code = run issues code := by
  rw [run_eq, h, run_eq]

end ChartLint.Repair
