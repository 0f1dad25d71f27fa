import ChartLint.Audit
import ChartLint.Proofs.Repair.Translation
import ChartLint.Proofs.Respacing.DryRun
import ChartLint.Proofs.Respacing.Resource

/-!
# Audits of a respaced script

Every rule of the suite follows the script, so an audit and a dry run do too. Two respacings matter on
their own. A script in the other style of line endings gets the same verdict and the same issues, up
to the carriage returns in what the messages quote (`audit_crlf`). A script that is moved down gets
the same issues, moved down with it, and its repair is the repair of the script, moved down
(`audit_moved_down`).
-/

namespace ChartLint

open Text Rule

/-- The text with carriage returns in front of its line feeds. -/
def Text.crlf (t : Text) : Text :=
  t.flatMap (fun c => if c = '\n' then ['\r', '\n'] else [c])

/-- The issue with a message without carriage returns. -/
def Issue.withoutReturns (i : Issue) : Issue :=
  { i with message := String.ofList (i.message.toList.filter (· != '\r')) }

/-- The remark, moved down; a remark on the whole script stays one. -/
def Diagnostic.lowered (k : Nat) (d : Diagnostic) : Diagnostic :=
  { d with line := if d.line = 0 then 0 else d.line + k }

/-- The issue, moved down. -/
def Issue.lowered (k : Nat) (i : Issue) : Issue :=
  { i with toDiagnostic := i.toDiagnostic.lowered k }

/-- The outcome of a dry run, moved down. -/
def DryRun.lowered (k : Nat) (run : DryRun) : DryRun :=
  ⟨run.verdict, run.errors.map (Diagnostic.lowered k), run.warnings.map (Diagnostic.lowered k)⟩

namespace Respacing

variable {r : Respacing} {p : Platform} {src src' : Source}

/-! ## Rules -/

/-- **The rule follows the script**, also in giving up. -/
def FollowsRule (r : Respacing) (rule : Rule) : Prop :=
  ∀ src src', r.Respaced src src' → r.Alike (rule.find src') (rule.find src)

theorem Follows.ofMasked {find : Text → List Finding} (h : r.Follows find) (name title : String) :
    r.FollowsRule (Rule.ofMasked name title find) := by
  intro src src' hsrc
  refine alike_ok ?_
  rw [hsrc.masked, h src.masked hsrc.fits_masked]

theorem followsRule_brush : r.FollowsRule .brush := by
  intro src src' hsrc
  show r.Alike (Brush.findings src'.masked) (Brush.findings src.masked)
  rw [Brush.findings_eq, Brush.findings_eq, hsrc.masked]
  exact alike_ok (follows_brush _ hsrc.fits_masked)

theorem followsRule_property : r.FollowsRule .property := by
  intro src src' hsrc
  show r.Alike (Property.findings src'.masked) (Property.findings src.masked)
  rw [Property.findings_eq, Property.findings_eq, hsrc.masked]
  exact alike_ok (follows_property _ hsrc.fits_masked)

theorem followsRule_series : r.FollowsRule .series := by
  intro src src' hsrc
  show r.Alike (Series.findings src'.masked) (Series.findings src.masked)
  rw [hsrc.masked]
  exact findings_series_text hsrc.fits_masked

/-- **Every rule of the suite** follows the script. -/
theorem followsRule_of_mem_suite (hserves : r.Serves p) {rule : Rule} (h : rule ∈ suite p) :
    r.FollowsRule rule := by
  simp only [suite, List.mem_cons, List.not_mem_nil, or_false] at h
  rcases h with rfl | rfl | rfl | rfl | rfl | rfl | rfl | rfl | rfl
  · exact follows_balance.ofMasked _ _
  · exact fun _ _ hsrc => skeleton_text hserves hsrc
  · exact followsRule_brush
  · exact follows_tick.ofMasked _ _
  · exact followsRule_property
  · exact followsRule_series
  · exact fun _ _ hsrc => resource_text hserves hsrc
  · exact follows_alert.ofMasked _ _
  · exact follows_panel.ofMasked _ _

/-! ## Issues -/

/-- An issue with a clean message. -/
def shownIssue (r : Respacing) (i : Issue) : Issue :=
  { i with toFinding := r.shown i.toFinding }

/-- An issue on the line that its line has become. -/
def movedIssue (r : Respacing) (i : Issue) : Issue :=
  { i with toFinding := r.moved i.toFinding }

theorem issuesOf_text {rule : Rule} (hrule : r.FollowsRule rule) (h : r.Respaced src src') :
    (Audit.issuesOf src' rule).map r.shownIssue
      = (Audit.issuesOf src rule).map (r.shownIssue ∘ r.movedIssue) := by
  have hfind : (rule.find src').map (List.map r.shown)
      = (rule.find src).map (List.map (r.shown ∘ r.moved)) := hrule src src' h
  unfold Audit.issuesOf Rule.check
  cases hsrc' : rule.find src' with
  | error fault' =>
    cases hsrc : rule.find src with
    | error fault =>
      rw [hsrc, hsrc'] at hfind
      cases hfind
      rfl
    | ok findings =>
      rw [hsrc, hsrc'] at hfind
      cases hfind
  | ok findings' =>
    cases hsrc : rule.find src with
    | error fault =>
      rw [hsrc, hsrc'] at hfind
      cases hfind
    | ok findings =>
      rw [hsrc, hsrc'] at hfind
      have hlists : findings'.map r.shown = findings.map (r.shown ∘ r.moved) := Except.ok.inj hfind
      have hnamed := congrArg (List.map (fun f : Finding => ({ f with check := rule.name } : Issue))) hlists
      rw [List.map_map, List.map_map] at hnamed
      simp only [Except.map, List.map_map]
      exact hnamed

/-- **The issues of the suite** move with the lines that they are on. -/
theorem issues_text (hserves : r.Serves p) (h : r.Respaced src src') :
    ((suite p).flatMap (Audit.issuesOf src')).map r.shownIssue
      = ((suite p).flatMap (Audit.issuesOf src)).map (r.shownIssue ∘ r.movedIssue) := by
  rw [List.map_flatMap, List.map_flatMap]
  exact List.flatMap_congr (fun rule hrule =>
    issuesOf_text (followsRule_of_mem_suite hserves hrule) h)

/-- The verdict looks at severities alone. -/
theorem verdict_congr (strict : Bool) {issues issues' : List Issue}
    (h : issues'.map (·.severity) = issues.map (·.severity)) :
    verdict strict issues' = verdict strict issues := by
  have hany : ∀ (severity : Severity) (is : List Issue), is.any (fun i => i.severity == severity)
      = (is.map (·.severity)).any (· == severity) := by
    intro severity is
    rw [List.any_map]
    rfl
  unfold verdict
  rw [hany, hany, h, hany, hany]

theorem verdict_text (hserves : r.Serves p) (h : r.Respaced src src') (strict : Bool) :
    verdict strict ((suite p).flatMap (Audit.issuesOf src'))
      = verdict strict ((suite p).flatMap (Audit.issuesOf src)) := by
  apply verdict_congr
  have hseverity := congrArg (List.map (fun i : Issue => i.severity)) (issues_text hserves h)
  rw [List.map_map, List.map_map] at hseverity
  exact hseverity

/-! ## Line endings -/

/-- The respacing to the other style of line endings. -/
def returning : Respacing :=
  ⟨0, true⟩

theorem crlf_eq_text (t : Text) : t.crlf = returning.text t :=
  rfl

theorem lineNo_returning (line : Int) : returning.lineNo line = line := by
  unfold lineNo
  split
  · next hline => exact hline.symm
  · exact Int.add_zero line

theorem movedIssue_returning (i : Issue) : returning.movedIssue i = i := by
  rw [movedIssue, moved, lineNo_returning]

theorem outcome_returning (run : DryRun) : returning.outcome run = run := by
  have hremark : ∀ ds : List Diagnostic, ds.map returning.remark = ds := by
    intro ds
    refine List.map_id'' (fun d => ?_) ds
    rw [remark, lineNo_returning]
  rw [outcome, hremark, hremark]

/-! ## Empty lines in front -/

/-- The respacing that moves a script down. -/
def lowering (k : Nat) : Respacing :=
  ⟨k, false⟩

theorem text_lowering (k : Nat) (t : Text) : (lowering k).text t = List.replicate k '\n' ++ t := by
  rw [text, head, inner_of_not_returns rfl, inner_of_not_returns rfl]
  rfl

theorem subjects_map_lowered (k : Nat) (issues : List Issue) :
    Repair.subjects (issues.map (Issue.lowered k)) = Repair.subjects issues := by
  unfold Repair.subjects
  rw [List.filter_map, List.filterMap_map]
  rfl

end Respacing

namespace Audit

open Respacing

/-- **Line endings do not matter.** A script without carriage returns and the script with carriage
returns in front of its line feeds get the same verdict and the same issues, up to the carriage returns
in messages, and the same dry run. -/
theorem audit_crlf {code : Text} (hcode : '\r' ∉ code) (strict autoFix : Bool) :
    (run (suite .nt8) strict autoFix code.crlf).verdict = (run (suite .nt8) strict autoFix code).verdict
      ∧ (run (suite .nt8) strict autoFix code.crlf).issues.map Issue.withoutReturns
        = (run (suite .nt8) strict autoFix code).issues.map Issue.withoutReturns
      ∧ DryRun.run .nt8 code.crlf = DryRun.run .nt8 code := by
  have hserves : returning.Serves .nt8 := fun _ => rfl
  have hfits : returning.Fits code := fun _ => hcode
  have hrespaced : returning.Respaced (Source.ofCode code) (Source.ofCode code.crlf) := ⟨hfits, rfl⟩
  simp only [run_verdict, run_issues]
  refine ⟨verdict_text hserves hrespaced strict, ?_, ?_⟩
  · refine (issues_text hserves hrespaced).trans (List.map_congr_left (fun i _ => ?_))
    rw [Function.comp_apply, movedIssue_returning]
    rfl
  · rw [crlf_eq_text, run_text hserves hfits, outcome_returning]

/-- A script with a tag that reaches over a line break. -/
def brokenTag : Text :=
  "void OnBarUpdate() \x7b\nDraw.Dot(this, @\"a\nb\");\n\x7d".toList

/-- The report on such a tag quotes it, and is the same without the carriage return. -/
theorem audit_crlf_brokenTag :
    '\r' ∉ brokenTag
      ∧ (run (suite .nt8) true false brokenTag.crlf).verdict
        = (run (suite .nt8) true false brokenTag).verdict
      ∧ (run (suite .nt8) true false brokenTag.crlf).issues.map Issue.withoutReturns
        = (run (suite .nt8) true false brokenTag).issues.map Issue.withoutReturns
      ∧ DryRun.run .nt8 brokenTag.crlf = DryRun.run .nt8 brokenTag :=
  ⟨by decide, audit_crlf (by decide) true false⟩

/-- **An audit does not depend on where the script starts.** With empty lines in front of it a script
gets the same verdict, the same issues and remarks on the lines that their lines have become, and the
same repair behind the empty lines. -/
theorem audit_moved_down (p : Platform) (strict autoFix : Bool) (k : Nat) (code : Text) :
    (run (suite p) strict autoFix (List.replicate k '\n' ++ code)).verdict
        = (run (suite p) strict autoFix code).verdict
      ∧ (run (suite p) strict autoFix (List.replicate k '\n' ++ code)).issues
        = (run (suite p) strict autoFix code).issues.map (Issue.lowered k)
      ∧ (run (suite p) strict autoFix (List.replicate k '\n' ++ code)).fixedCode
        = (run (suite p) strict autoFix code).fixedCode.map (List.replicate k '\n' ++ ·)
      ∧ DryRun.run p (List.replicate k '\n' ++ code) = (DryRun.run p code).lowered k := by
  have hserves : (lowering k).Serves p := fun h => Bool.noConfusion h
  have hfits : (lowering k).Fits code := fun h => Bool.noConfusion h
  have hrespaced : (lowering k).Respaced (Source.ofCode code) (Source.ofCode ((lowering k).text code)) :=
    ⟨hfits, rfl⟩
  have hissues : (suite p).flatMap (issuesOf (Source.ofCode ((lowering k).text code)))
      = ((suite p).flatMap (issuesOf (Source.ofCode code))).map (Issue.lowered k) := by
    have hshown := issues_text hserves hrespaced
    rw [show (lowering k).shownIssue = id from rfl, List.map_id] at hshown
    exact hshown
  rw [← text_lowering]
  simp only [run_verdict, run_issues, run_fixedCode]
  refine ⟨verdict_text hserves hrespaced strict, hissues, ?_, ?_⟩
  · rw [hissues, subjects_map_lowered, Repair.run_congr_subjects (subjects_map_lowered k _),
      Repair.run_text rfl]
    split
    · rw [Option.map_some, text_lowering]
    · rfl
  · exact run_text hserves hfits

end Audit

end ChartLint
