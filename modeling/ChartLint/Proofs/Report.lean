import ChartLint.Proofs.Text.Lines
import ChartLint.Proofs.Text.Trim
import ChartLint.Report

/-!
# What a report shows

A report is a list of lines, joined and then trimmed at the end. So it ends with exactly one line
feed (`endsOnce_finish`), and a stretch of its lines stands in it as one piece, up to the blanks that
the stretch ends with (`stretch_infix_finish`).

From this follows what nobody may miss: no issue of an audit is left out (`entry_infix_ofAudit`), the
issues of one severity stand together in their order (`group_infix_ofAudit`), and a repaired script is
shown as it is (`fixedCode_infix_ofAudit`). A report on a dry run shows every remark
(`entry_infix_ofDryRun`).
-/

namespace ChartLint.Report

open Text

/-! ## Lines of a report -/

/-- A text ends with one line feed, with no blank in front of it. -/
def EndsOnce (report : Text) : Prop :=
  ∃ body, report = body ++ ['\n'] ∧ ∀ c, body.getLast? = some c → isBlank c = false

theorem endsOnce_finish (ls : List Text) : EndsOnce (finish ls) :=
  ⟨_, rfl, fun _ => not_of_getLast?_trimEndBy⟩

/-- **A stretch of lines** stands in the report, trimmed. -/
theorem stretch_infix_finish {stretch ls : List Text} (h : stretch <:+: ls) :
    trimEnd (joinLines stretch) <:+: finish ls :=
  (isInfix_trimEndBy (isInfix_joinLines h)).trans (List.prefix_append _ _).isInfix

/-- A list shows all its entries in their order. -/
theorem map_infix_listing {α : Type} (title : String) (entry : α → String) (items : List α) :
    items.map entry <:+: listing title entry items := by
  unfold listing
  split
  · next hempty =>
    rw [List.isEmpty_iff.mp hempty]
    exact List.nil_infix
  · exact ⟨_, _, rfl⟩

/-- One entry of a list stands in the report. -/
theorem entry_infix_finish {α : Type} {entry : α → String} {items : List α} {ls : List Text}
    (h : (items.map entry).map String.toList <:+: ls) {item : α} (hitem : item ∈ items) :
    trimEnd (entry item).toList <:+: finish ls := by
  have hone : [(entry item).toList] <:+: (items.map entry).map String.toList := by
    obtain ⟨front, back, rfl⟩ := List.append_of_mem hitem
    exact ⟨(front.map entry).map String.toList, (back.map entry).map String.toList, by simp⟩
  have hstretch := stretch_infix_finish (hone.trans h)
  rwa [joinLines, List.intercalate_singleton] at hstretch

/-! ## Audits -/

section Audit

variable (a : Audit)

/-- The issues of one severity, in their order. -/
def group (severity : Severity) : List Issue :=
  a.issues.filter (fun i => i.severity == severity)

/-- The lines of a report hold the list of each severity. -/
theorem exists_group (severity : Severity) :
    ∃ ls, ofAudit a = finish ls ∧ ((group a severity).map issueEntry).map String.toList <:+: ls := by
  refine ⟨_, rfl, ?_⟩
  rw [List.map_append, List.map_append]
  have hlisting := fun title => (map_infix_listing title issueEntry (group a severity)).map String.toList
  refine List.IsInfix.trans ?_ (List.prefix_append _ _).isInfix
  refine List.IsInfix.trans ?_ (List.suffix_append _ _).isInfix
  rw [List.map_append, List.map_append]
  cases severity with
  | error =>
    exact (hlisting _).trans
      ((List.prefix_append _ _).isInfix.trans (List.prefix_append _ _).isInfix)
  | warning =>
    exact (hlisting _).trans
      ((List.suffix_append _ _).isInfix.trans (List.prefix_append _ _).isInfix)
  | info => exact (hlisting _).trans (List.suffix_append _ _).isInfix

/-- **The issues of one severity** stand together, in the order of the audit. -/
theorem group_infix_ofAudit (severity : Severity) :
    trimEnd (joinLines (((group a severity).map issueEntry).map String.toList)) <:+: ofAudit a := by
  obtain ⟨ls, hreport, hgroup⟩ := exists_group a severity
  rw [hreport]
  exact stretch_infix_finish hgroup

/-- **No issue is left out.** -/
theorem entry_infix_ofAudit {i : Issue} (hi : i ∈ a.issues) :
    trimEnd (issueEntry i).toList <:+: ofAudit a := by
  obtain ⟨ls, hreport, hgroup⟩ := exists_group a i.severity
  rw [hreport]
  exact entry_infix_finish hgroup (List.mem_filter.mpr ⟨hi, beq_self_eq_true _⟩)

/-- **A repaired script is shown as it is**, between two fences. -/
theorem fixedCode_infix_ofAudit {code : Text} (h : a.fixedCode = some code) :
    "```csharp\n".toList ++ code ++ "\n```".toList <:+: ofAudit a := by
  have hlines : ["```csharp".toList, code, "```".toList] <:+: fixedLines a.fixedCode := by
    rw [h]
    exact ⟨["## Automatically fixed code".toList, []], [], rfl⟩
  obtain ⟨front, hreport⟩ : ∃ front, ofAudit a = finish (front ++ fixedLines a.fixedCode) := ⟨_, rfl⟩
  have hjoined : joinLines ["```csharp".toList, code, "```".toList]
      = "```csharp\n".toList ++ code ++ "\n```".toList := by
    simp [joinLines, List.intercalate, List.intersperse]
  have htrimmed : trimEnd ("```csharp\n".toList ++ code ++ "\n```".toList)
      = "```csharp\n".toList ++ code ++ "\n```".toList :=
    trimEndBy_append_of_ne_nil (by decide) _
  rw [hreport, ← htrimmed, ← hjoined]
  exact stretch_infix_finish (hlines.trans (List.suffix_append _ _).isInfix)

end Audit

/-! ## Dry runs -/

section DryRun

variable (r : DryRun)

/-- The lines of a report hold the list of the errors and that of the warnings. -/
theorem exists_remarks {items : List Diagnostic} (hitems : items = r.errors ∨ items = r.warnings) :
    ∃ ls, ofDryRun r = finish ls ∧ (items.map diagnosticEntry).map String.toList <:+: ls := by
  refine ⟨_, rfl, ?_⟩
  have hlisting := fun title => (map_infix_listing title diagnosticEntry items).map String.toList
  rw [List.map_append, List.map_append]
  refine List.IsInfix.trans ?_ (List.prefix_append _ _).isInfix
  refine List.IsInfix.trans ?_ (List.suffix_append _ _).isInfix
  rw [List.map_append]
  rcases hitems with rfl | rfl
  · exact (hlisting _).trans (List.prefix_append _ _).isInfix
  · exact (hlisting _).trans (List.suffix_append _ _).isInfix

/-- **No remark is left out.** -/
theorem entry_infix_ofDryRun {d : Diagnostic} (hd : d ∈ r.errors ++ r.warnings) :
    trimEnd (diagnosticEntry d).toList <:+: ofDryRun r := by
  obtain ⟨items, hitems, hmem⟩ : ∃ items, (items = r.errors ∨ items = r.warnings) ∧ d ∈ items := by
    rcases List.mem_append.mp hd with hd | hd
    · exact ⟨_, .inl rfl, hd⟩
    · exact ⟨_, .inr rfl, hd⟩
  obtain ⟨ls, hreport, hlist⟩ := exists_remarks r hitems
  rw [hreport]
  exact entry_infix_finish hlist hmem

end DryRun

end ChartLint.Report
