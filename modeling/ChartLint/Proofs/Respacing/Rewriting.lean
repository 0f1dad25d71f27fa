import ChartLint.Proofs.Modernize.Translation
import ChartLint.Proofs.Respacing.Audit

/-!
# Rewriting in the other style of line endings

A modernization and a repair keep to the style of line endings of the script. Held here: it makes no
difference whether a script is rewritten first and converted then, or the other way round
(`rewriters_crlf`). The script has a line break and no carriage return; without a line break there is
no style to keep to.

Main statements: the repair of the converted script mends the same properties, since messages and lines
do not enter into the choice of them (`subjects_brush`), and they are words, since the brush rule reads
them as words; with that both rewriters are instances of what is known of any respacing.
-/

namespace ChartLint

open Text

namespace Respacing

variable {r : Respacing}

/-! ## What is to be mended -/

/-- What an issue says and where plays no part in the choice of the properties to mend. -/
theorem subjects_map (f : Issue → Issue)
    (hf : ∀ i, (f i).check = i.check ∧ (f i).autoFixable = i.autoFixable ∧ (f i).subject = i.subject)
    (issues : List Issue) : Repair.subjects (issues.map f) = Repair.subjects issues := by
  have hasked : ∀ i, ((f i).check == Rule.brush.name && (f i).autoFixable)
      = (i.check == Rule.brush.name && i.autoFixable) := by
    intro i
    rw [(hf i).1, (hf i).2.1]
  unfold Repair.subjects
  simp only [List.filter_map, List.filterMap_map, Function.comp_def, hasked, (hf _).2.2]

/-- **The properties to mend** are those of the script, in the same order. -/
theorem subjects_brush {code : Text} (hfits : r.Fits code) :
    Repair.subjects (Audit.issuesOf (Source.ofCode (r.text code)) .brush)
      = Repair.subjects (Audit.issuesOf (Source.ofCode code) .brush) := by
  have hrespaced : r.Respaced (Source.ofCode code) (Source.ofCode (r.text code)) := ⟨hfits, rfl⟩
  have hsubjects := congrArg Repair.subjects (issuesOf_text followsRule_brush hrespaced)
  -- both sides tell the messages clean, the right one moves the lines as well
  rwa [subjects_map r.shownIssue (fun _ => ⟨rfl, rfl, rfl⟩),
    subjects_map (r.shownIssue ∘ r.movedIssue) (fun _ => ⟨rfl, rfl, rfl⟩)] at hsubjects

/-- A property that the brush rule asks to mend fits every respacing. -/
theorem fitting_of_mem_subjects {code : Text} {issues : List Issue}
    (h : Rule.brush.check (Source.ofCode code) = .ok issues) {prop : String}
    (hprop : prop ∈ Repair.subjects issues) : Repair.Fitting r prop.toList := by
  refine Repair.fitting_of_isWord ?_ (Repair.isWord_of_mem_subjects h hprop)
  rw [Repair.subjects, List.mem_eraseDups, List.mem_filterMap] at hprop
  obtain ⟨i, -, hsubject⟩ := hprop
  obtain ⟨-, hne⟩ := Option.filter_eq_some_iff.mp hsubject
  simpa using hne

/-- **The repair of what the brush rule reports** on a respaced script is the respaced repair of what it
reports on the script. -/
theorem repair_brush_text {code : Text} (h : r.Suits code) {issues issues' : List Issue}
    (hissues : Rule.brush.check (Source.ofCode code) = .ok issues)
    (hissues' : Rule.brush.check (Source.ofCode (r.text code)) = .ok issues') :
    Repair.run issues' (r.text code) = r.text (Repair.run issues code) := by
  have hsubjects := subjects_brush h.fits
  rw [Audit.issuesOf, Audit.issuesOf, hissues, hissues'] at hsubjects
  rw [Repair.run_congr_subjects hsubjects]
  exact Repair.run_text_of_fitting (fun prop hprop => fitting_of_mem_subjects hissues hprop) h

end Respacing

open Respacing

/-- **Rewriting commutes with the conversion of line endings.** A script with line breaks and without
carriage returns is modernized under the same kind in both styles, and its modernization and its repair
in the other style are the converted ones. -/
theorem rewriters_crlf {code : Text} (hfeed : '\n' ∈ code) (hreturn : '\r' ∉ code) :
    (∀ requested : Option String,
      (Modernize.run requested code.crlf).revision.code
          = (Modernize.run requested code).revision.code.crlf
        ∧ (Modernize.run requested code.crlf).kind = (Modernize.run requested code).kind)
      ∧ ∃ issues issues',
        Rule.brush.check (Source.ofCode code) = .ok issues
          ∧ Rule.brush.check (Source.ofCode code.crlf) = .ok issues'
          ∧ Repair.run issues' code.crlf = (Repair.run issues code).crlf := by
  have hsuits : returning.Suits code := ⟨fun _ => hreturn, fun _ => hfeed⟩
  constructor
  · intro requested
    have hrun := Modernize.run_text requested (r := returning) rfl hsuits
    constructor
    · rw [crlf_eq_text, crlf_eq_text, hrun, Revision.respaced]
    · rw [crlf_eq_text, hrun]
  · have hissues := Rule.Brush.check_eq (Source.ofCode code)
    have hissues' := Rule.Brush.check_eq (Source.ofCode code.crlf)
    exact ⟨_, _, hissues, hissues', repair_brush_text hsuits hissues hissues'⟩

/-- A script with a wrong namespace, a drawing call of the previous release and a property to mend. -/
def outdated : Text :=
  "namespace Custom\n\x7b\npublic Brush Up \x7b get; set; \x7d = Brushes.Lime;\nDrawDot(\"a\");\n\x7d".toList

/-- Such a script comes out the same, whether it is rewritten or converted first. -/
theorem rewriters_crlf_outdated :
    '\n' ∈ outdated ∧ '\r' ∉ outdated
      ∧ (∀ requested : Option String,
        (Modernize.run requested outdated.crlf).revision.code
            = (Modernize.run requested outdated).revision.code.crlf
          ∧ (Modernize.run requested outdated.crlf).kind = (Modernize.run requested outdated).kind)
      ∧ ∃ issues issues',
        Rule.brush.check (Source.ofCode outdated) = .ok issues
          ∧ Rule.brush.check (Source.ofCode outdated.crlf) = .ok issues'
          ∧ Repair.run issues' outdated.crlf = (Repair.run issues outdated).crlf :=
  ⟨by decide, by decide, rewriters_crlf (by decide) (by decide)⟩

end ChartLint
