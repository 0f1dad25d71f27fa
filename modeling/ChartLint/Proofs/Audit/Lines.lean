import ChartLint.DryRun
import ChartLint.Proofs.Audit.Registration
import ChartLint.Proofs.Respacing.Finding

/-!
# The lines of remarks

Every remark is on a line that the script has, or on the whole script (`line_issues_and_remarks`). The
rules take lines from four places: from offsets in masked text, whose lines the script has too; from
the numbers of the lines themselves; from the last line; and from line zero. Each rule is settled by
what its findings are made of. Four of the rules remark on lines only.
-/

namespace ChartLint

open Text

/-! ## Remarks on lines -/

namespace Diagnostic

/-- **The remark is on a line of the text.** -/
def OnLine (t : Text) (d : Diagnostic) : Prop :=
  1 ≤ d.line ∧ d.line ≤ (lines t).length

/-- **The remark is on a line of the text** or on the whole of it. -/
def OnScript (t : Text) (d : Diagnostic) : Prop :=
  0 ≤ d.line ∧ d.line ≤ (lines t).length

variable {t t' : Text} {d : Diagnostic}

theorem OnLine.onScript (h : d.OnLine t) : d.OnScript t :=
  ⟨Int.le_trans (by decide) h.1, h.2⟩

/-- A remark on a line that is counted from one and not behind the last. -/
theorem onLine_of_eq {n : Nat} (h : d.line = (n : Int)) (hpos : 1 ≤ n) (hle : n ≤ (lines t).length) :
    d.OnLine t := by
  unfold OnLine
  omega

/-- A remark on the line of an offset. -/
theorem onLine_lineOf {n : Nat} (h : d.line = (lineOf t n : Nat)) : d.OnLine t :=
  onLine_of_eq h (Nat.succ_pos _) (lineOf_le_length_lines t n)

/-- A remark on the whole script. -/
theorem onScript_whole (h : d.line = 0) : d.OnScript t := by
  unfold OnScript
  omega

/-- Texts with as many lines have the same lines to remark on. -/
theorem OnLine.congr (hlines : (lines t).length = (lines t').length) (h : d.OnLine t) : d.OnLine t' := by
  rwa [OnLine, ← hlines]

theorem OnScript.congr (hlines : (lines t).length = (lines t').length) (h : d.OnScript t) :
    d.OnScript t' := by
  rwa [OnScript, ← hlines]

end Diagnostic

/-- Even the empty text has a line. -/
theorem length_lines_pos (t : Text) : 1 ≤ (lines t).length := by
  rw [length_lines]
  exact Nat.succ_pos _

/-- Masking keeps the number of lines, so that a line of the mask is a line of the script. -/
theorem length_lines_masked (src : Source) : (lines src.masked).length = (lines src.code).length := by
  rw [src.masked_eq, Lexing.length_lines_mask]

namespace Rule

open Diagnostic

variable {t : Text} {src : Source} {p : Platform} {f : Finding}

/-! ## Balance -/

/-- A stray closer is on a line of the text that is read. -/
theorem line_le_of_mem_straysFrom {depths : Balance.Depths} {line : Nat} {s : Balance.Stray}
    (h : s ∈ Balance.straysFrom depths line t) : s.line ≤ line + t.count '\n' := by
  induction t generalizing depths line with
  | nil => cases h
  | cons c t ih =>
    rw [Balance.straysFrom] at h
    rcases List.mem_append.mp h with hfirst | hlater
    · rw [Option.mem_toList, Balance.strayAt?] at hfirst
      split at hfirst
      · split at hfirst
        · cases hfirst
          exact Nat.le_add_right _ _
        · cases hfirst
      · cases hfirst
    · -- the count goes up behind a line feed only, and so does the bound
      have hle := ih hlater
      split at hle
      · next hc =>
        rw [hc, List.count_cons_self]
        omega
      · next hc =>
        rw [List.count_cons_of_ne hc]
        exact hle

/-- A region finding is on the last line or on one of the lines that are read. -/
theorem line_of_mem_regionFindingsFrom {last depth number : Nat} {ls : List Text}
    (h : f ∈ Balance.regionFindingsFrom last depth number ls) :
    ∃ n : Nat, f.line = n ∧ (n = last ∨ (number ≤ n ∧ n < number + ls.length)) := by
  induction ls generalizing depth number with
  | nil =>
    rw [Balance.regionFindingsFrom] at h
    split at h
    · cases h
    · rw [List.mem_singleton.mp h]
      exact ⟨last, rfl, .inl rfl⟩
  | cons l ls ih =>
    rw [Balance.regionFindingsFrom] at h
    rcases List.mem_append.mp h with hstray | hlater
    · split at hstray
      · rw [List.mem_singleton.mp hstray]
        exact ⟨number, rfl, .inr ⟨Nat.le_refl _, by rw [List.length_cons]; omega⟩⟩
      · cases hstray
    · obtain ⟨n, hline, hn⟩ := ih hlater
      refine ⟨n, hline, hn.imp_right ?_⟩
      rintro ⟨hle, hlt⟩
      rw [List.length_cons]
      omega

/-- A stray closer is on its own line, and a delimiter that stays open is reported on the last one. -/
theorem onLine_delimiterFindings (h : f ∈ Balance.delimiterFindings t) : f.OnLine t := by
  rcases List.mem_append.mp h with hstray | hopen
  · obtain ⟨s, hs, rfl⟩ := List.mem_map.mp hstray
    have hle := line_le_of_mem_straysFrom hs
    refine onLine_of_eq (n := s.line) rfl (Respacing.pos_of_mem_straysFrom hs) ?_
    rw [length_lines]
    omega
  · obtain ⟨d, -, hd⟩ := List.mem_filterMap.mp hopen
    unfold Balance.unclosed? at hd
    simp only at hd
    split at hd
    · cases hd
    · cases hd
      exact onLine_of_eq rfl (length_lines_pos t) (Nat.le_refl _)

/-- The lines of regions are counted from one; what stays open is reported on the last line. -/
theorem onLine_regionFindings (h : f ∈ Balance.regionFindings t) : f.OnLine t := by
  obtain ⟨n, hline, hn⟩ := line_of_mem_regionFindingsFrom h
  have hpos := length_lines_pos t
  exact onLine_of_eq hline (by omega) (by omega)

/-! ## Properties, alerts and signals -/

/-- The reports on a brush property are on the line of its declaration. -/
theorem onLine_brush {m : Match} (h : f ∈ Brush.reportsOn t m) : f.OnLine t := by
  apply onLine_lineOf (n := m.start)
  unfold Brush.reportsOn at h
  simp only at h
  split at h
  · cases h
  · rcases List.mem_append.mp h with hattribute | hcompanion
    · rw [Option.mem_toList, Brush.attributeFinding?] at hattribute
      split at hattribute
      · cases hattribute
      · cases hattribute
        rfl
    · rw [Option.mem_toList, Brush.companionFinding?] at hcompanion
      split at hcompanion
      · cases hcompanion
        rfl
      · split at hcompanion
        · cases hcompanion
        · cases hcompanion
          rfl

/-- So are those on the attributes of a property. -/
theorem onLine_property {m : Match} (h : f ∈ Property.reportsOn t m) : f.OnLine t := by
  apply onLine_lineOf (n := m.start)
  unfold Property.reportsOn at h
  simp only at h
  split at h
  · cases h
  · rcases List.mem_append.mp h with hsetting | hrange
    · split at hsetting
      · cases hsetting
      · unfold Property.settingFindings at hsetting
        rcases List.mem_append.mp hsetting with hone | hone
        all_goals
          split at hone
          · cases hone
          · rw [List.mem_singleton.mp hone]
            rfl
    · unfold Property.rangeFindings at hrange
      simp only at hrange
      split at hrange
      · rw [List.mem_singleton.mp hrange]
        rfl
      · split at hrange
        · rw [List.mem_singleton.mp hrange]
          rfl
        · cases hrange

/-- The report on an alert is on the line of its call. -/
theorem onLine_alert {m : Match} (h : Alert.callFinding? t m = some f) : f.OnLine t := by
  apply onLine_lineOf (n := m.start)
  unfold Alert.callFinding? at h
  simp only at h
  split at h
  · cases h
  · cases h
    rfl

/-- A line that signals is named by its number in the list of lines. -/
theorem onScript_tick (h : f ∈ Tick.findings t) : f.OnScript t := by
  unfold Tick.findings at h
  split at h
  · cases h
  · split at h
    · rw [List.mem_singleton.mp h]
      exact onScript_whole rfl
    · obtain ⟨line, hline, rfl⟩ := List.mem_map.mp h
      -- the lines are numbered from one before they are filtered
      obtain ⟨⟨l, n⟩, hmem, rfl⟩ := List.mem_map.mp hline
      obtain ⟨hpos, hlt, -⟩ := List.mem_zipIdx (List.mem_of_mem_filter hmem)
      exact (onLine_of_eq (n := n) rfl hpos (by omega)).onScript

/-- A missing panel is a remark on the whole script, a hidden one on the line that hides it. -/
theorem onScript_panel (h : f ∈ Panel.findings t) : f.OnScript t := by
  unfold Panel.findings at h
  split at h
  · rw [Option.mem_toList, Option.bind_eq_some_iff] at h
    obtain ⟨body, -, hhidden⟩ := h
    unfold Panel.hiddenPanel? at hhidden
    split at hhidden
    · cases hhidden
    · simp only at hhidden
      split at hhidden
      · cases hhidden
      · cases hhidden
        exact (onLine_lineOf rfl).onScript
  · rw [List.mem_singleton.mp h]
    exact onScript_whole rfl

/-! ## Series -/

/-- A series that is added in the wrong phase is on its line. -/
theorem onScript_placement {additions : List Match} (h : f ∈ Series.placement t additions) :
    f.OnScript t := by
  obtain ⟨m, -, hm⟩ := List.mem_filterMap.mp h
  split at hm
  · cases hm
  · cases hm
    exact (onLine_lineOf rfl).onScript

/-- The missing guard is reported where the method starts. -/
theorem onScript_progressGuard {count : Nat} (h : f ∈ Series.progressGuard t count) : f.OnScript t := by
  unfold Series.progressGuard at h
  split at h
  · cases h
  · simp only at h
    split at h
    · cases h
    · rw [List.mem_singleton.mp h]
      exact (onLine_lineOf rfl).onScript

theorem onScript_barCounts {count : Nat} (h : f ∈ Series.barCounts t count) : f.OnScript t := by
  obtain ⟨index, -, rfl⟩ := List.mem_map.mp h
  exact onScript_whole rfl

/-- A reference is on its line, as far as its number can be read. -/
theorem onScript_referenceFinding {count : Nat} {m : Match}
    (h : Series.referenceFinding t count m = .ok (some f)) : f.OnScript t := by
  obtain ⟨index, -, hreport⟩ := exists_of_map_eq_ok h
  split at hreport
  · cases hreport
  · cases hreport
    exact (onLine_lineOf rfl).onScript

/-- **What the rule on series reports**, where it does not give up. -/
theorem onScript_series {found : List Finding} (hfound : Series.findings t = .ok found) (h : f ∈ found) :
    f.OnScript t := by
  unfold Series.findings at hfound
  split at hfound
  · cases hfound
    cases h
  · obtain ⟨outOfRange, hrange, rfl⟩ := exists_of_map_eq_ok hfound
    simp only [List.mem_append, or_assoc] at h
    rcases h with hplacement | hguard | hcount | hreference
    · exact onScript_placement hplacement
    · exact onScript_progressGuard hguard
    · exact onScript_barCounts hcount
    · obtain ⟨m, -, hm⟩ := exists_of_mem_filterMapM hrange hreference
      exact onScript_referenceFinding hm

/-! ## Resources -/

/-- A report on something that is created in the wrong place is on its line, whatever the place is
called. -/
theorem onLine_creation {m : Match} {phase : Option Phase}
    (h : Resource.seriesFinding? t phase m = .ok (some f)
      ∨ Resource.indicatorFinding? t phase m = .ok (some f)) : f.OnLine t := by
  rcases h with h | h
  · unfold Resource.seriesFinding? at h
    split at h
    · cases h
    · obtain ⟨place, -, hreport⟩ := exists_of_map_eq_ok h
      cases hreport
      exact onLine_lineOf rfl
  · unfold Resource.indicatorFinding? at h
    split at h
    · obtain ⟨place, -, hreport⟩ := exists_of_map_eq_ok h
      cases hreport
      exact onLine_lineOf rfl
    · cases h

/-- A fixed tag is reported on the line of its call. -/
theorem onLine_drawing {m : Match} (h : Resource.drawingFinding? p src m = .ok (some f)) :
    f.OnLine src.masked := by
  unfold Resource.drawingFinding? at h
  simp only at h
  split at h
  · cases h
  · obtain ⟨tag, -, hreport⟩ := exists_of_map_eq_ok h
    split at hreport
    · cases hreport
    · split at hreport
      · cases hreport
      · cases hreport
        exact onLine_lineOf rfl

/-- **What the rule on resources reports** is on lines. -/
theorem onLine_resource {found : List Finding} (hfound : Resource.findings p src = .ok found) (h : f ∈ found) :
    f.OnLine src.masked := by
  obtain ⟨series, hseries, hfound⟩ := exists_of_bind_eq_ok hfound
  obtain ⟨indicators, hindicators, hfound⟩ := exists_of_bind_eq_ok hfound
  obtain ⟨drawings, hdrawings, hfound⟩ := exists_of_bind_eq_ok hfound
  cases hfound
  simp only [List.mem_append, or_assoc] at h
  rcases h with hmem | hmem | hmem | hmem
  · obtain ⟨m, -, hm⟩ := exists_of_mem_filterMapM hseries hmem
    exact onLine_creation (.inl hm)
  · obtain ⟨m, -, hm⟩ := exists_of_mem_filterMapM hindicators hmem
    exact onLine_creation (.inr hm)
  · obtain ⟨v, -, rfl⟩ := List.mem_map.mp hmem
    exact onLine_lineOf rfl
  · obtain ⟨m, -, hm⟩ := exists_of_mem_filterMapM hdrawings hmem
    exact onLine_drawing hm

/-! ## The skeleton -/

/-- Most remarks on the skeleton ask whether something is there at all: they are on the whole script. -/
theorem onScript_wholeIf {holds : Bool} {finding : Finding} (hline : finding.line = 0)
    (h : f ∈ Skeleton.wholeIf holds finding) : f.OnScript t := by
  unfold Skeleton.wholeIf at h
  split at h
  · rw [List.mem_singleton.mp h]
    exact onScript_whole hline
  · cases h

/-- Missing methods and states. -/
theorem onScript_lifecycle (h : f ∈ Skeleton.lifecycle p src) : f.OnScript t := by
  unfold Skeleton.lifecycle at h
  simp only at h
  rcases List.mem_append.mp h with hstates | hupdate
  · split at hstates
    · rw [List.mem_singleton.mp hstates]
      exact onScript_whole rfl
    · simp only [List.mem_append, or_assoc] at hstates
      rcases hstates with hstate | hstate | hstate <;> exact onScript_wholeIf rfl hstate
  · exact onScript_wholeIf rfl hupdate

theorem onScript_defaults {code : Text} (h : f ∈ Skeleton.defaults code) : f.OnScript t := by
  simp only [Skeleton.defaults, List.mem_append, or_assoc] at h
  rcases h with hdefault | hdefault | hdefault <;> exact onScript_wholeIf rfl hdefault

/-- A missing namespace is a remark on the whole script, a wrong one is on its line. -/
theorem onScript_packaging (hlines : (lines src.masked).length = (lines t).length) {base : String}
    (h : f ∈ Skeleton.packaging p base src) : f.OnScript t := by
  unfold Skeleton.packaging at h
  split at h
  · rw [List.mem_singleton.mp h]
    exact onScript_whole rfl
  · simp only at h
    split at h
    · cases h
    · rw [List.mem_singleton.mp h]
      exact ((onLine_lineOf rfl).congr hlines).onScript

theorem onScript_unknownSignal {known : List Text} {m : Match}
    (h : Skeleton.riskFinding? src known m = .ok (some f)) : f.OnScript src.code := by
  obtain ⟨hidden, -, hreport⟩ := exists_of_map_eq_ok h
  split at hreport
  · cases hreport
  · cases hreport
    exact (onLine_lineOf rfl).onScript

/-- Signals are looked up in the script itself, so that their lines need no mask. -/
theorem onScript_signals {found : List Finding} (hfound : Skeleton.signals src = .ok found) (h : f ∈ found) :
    f.OnScript src.code := by
  obtain ⟨known, -, hfound⟩ := exists_of_bind_eq_ok hfound
  obtain ⟨unknown, hunknown, hfound⟩ := exists_of_bind_eq_ok hfound
  cases hfound
  simp only [List.mem_append, or_assoc] at h
  rcases h with hentry | hrisk | hexecution
  · exact onScript_wholeIf rfl hentry
  · obtain ⟨m, -, hm⟩ := exists_of_mem_filterMapM hunknown hrisk
    exact onScript_unknownSignal hm
  · exact onScript_wholeIf rfl hexecution

/-- **What the rule on the skeleton reports.** -/
theorem onScript_skeleton {found : List Finding} (hfound : Skeleton.findings p src = .ok found)
    (h : f ∈ found) : f.OnScript src.code := by
  unfold Skeleton.findings at hfound
  split at hfound
  · cases hfound
    rw [List.mem_singleton.mp h]
    exact onScript_whole rfl
  · next m =>
    -- what is asked of indicators and strategies alike; the signals are for strategies alone
    have halways : ∀ {base}, f ∈ Skeleton.lifecycle p src ++ Skeleton.defaults src.code
        ++ Skeleton.packaging p base src → f.OnScript src.code := by
      intro base hmem
      simp only [List.mem_append, or_assoc] at hmem
      rcases hmem with hlifecycle | hdefaults | hpackaging
      · exact onScript_lifecycle hlifecycle
      · exact onScript_defaults hdefaults
      · exact onScript_packaging (length_lines_masked src) hpackaging
    simp only at hfound
    split at hfound
    · obtain ⟨signals, hsignals, rfl⟩ := exists_of_map_eq_ok hfound
      exact (List.mem_append.mp h).elim halways (onScript_signals hsignals)
    · cases hfound
      exact halways h

/-! ## The suite -/

/-- The rules that remark on lines only. -/
def lineRules : List Rule :=
  [.brush, .property, .alert, .balance]

/-- **The four rules** make no remark on the whole script. -/
theorem onLine_of_mem_lineRules {rule : Rule} (hrule : rule ∈ lineRules) {found : List Finding}
    (hfound : rule.find src = .ok found) (h : f ∈ found) : f.OnLine src.code := by
  suffices hmasked : f.OnLine src.masked from hmasked.congr (length_lines_masked src)
  simp only [lineRules, List.mem_cons, List.not_mem_nil, or_false] at hrule
  rcases hrule with rfl | rfl | rfl | rfl
  · obtain rfl := Except.ok.inj ((Brush.findings_eq src.masked).symm.trans hfound)
    obtain ⟨m, -, hm⟩ := List.mem_flatMap.mp h
    exact onLine_brush hm
  · obtain rfl := Except.ok.inj ((Property.findings_eq src.masked).symm.trans hfound)
    obtain ⟨m, -, hm⟩ := List.mem_flatMap.mp h
    exact onLine_property hm
  · cases hfound
    obtain ⟨m, -, hm⟩ := List.mem_filterMap.mp h
    exact onLine_alert hm
  · cases hfound
    rcases List.mem_append.mp h with hdelimiter | hregion
    · exact onLine_delimiterFindings hdelimiter
    · exact onLine_regionFindings hregion

/-- **Every finding of the suite** is on a line of the script or on the whole script. -/
theorem onScript_of_mem_suite {rule : Rule} (hrule : rule ∈ suite p) {found : List Finding}
    (hfound : rule.find src = .ok found) (h : f ∈ found) : f.OnScript src.code := by
  by_cases hline : rule ∈ lineRules
  · exact (onLine_of_mem_lineRules hline hfound h).onScript
  · simp only [suite, List.mem_cons, List.not_mem_nil, or_false] at hrule
    have hlines := length_lines_masked src
    -- in the order of the suite; the four that are done already contradict `hline`
    rcases hrule with rfl | rfl | rfl | rfl | rfl | rfl | rfl | rfl | rfl
    · exact absurd (by simp [lineRules]) hline
    · exact onScript_skeleton hfound h
    · exact absurd (by simp [lineRules]) hline
    · cases hfound
      exact (onScript_tick h).congr hlines
    · exact absurd (by simp [lineRules]) hline
    · exact (onScript_series hfound h).congr hlines
    · exact ((onLine_resource hfound h).congr hlines).onScript
    · exact absurd (by simp [lineRules]) hline
    · cases hfound
      exact (onScript_panel h).congr hlines

end Rule

/-! ## The dry run -/

namespace DryRun

open Diagnostic

variable {t : Text} {p : Platform} {d : Diagnostic}

theorem onScript_require {shape : Pattern} {message : String} (h : d ∈ require t shape message) :
    d.OnScript t := by
  unfold require at h
  split at h
  · cases h
  · rw [List.mem_singleton.mp h]
    exact onScript_whole rfl

/-- The errors of a dry run are on the line of what they name, or on the whole script. -/
theorem onScript_errors (h : d ∈ (ofMasked p t).errors) : d.OnScript t := by
  simp only [ofMasked, frameErrors, List.mem_append, or_assoc] at h
  rcases h with hclass | hnamespace | hstate | hupdate | hdraw | hstates | husing
  · unfold classErrors at hclass
    split at hclass
    · rw [List.mem_singleton.mp hclass]
      exact onScript_whole rfl
    · cases hclass
    · rw [List.mem_singleton.mp hclass]
      exact (onLine_lineOf rfl).onScript
  · exact onScript_require hnamespace
  · exact onScript_require hstate
  · exact onScript_require hupdate
  · obtain ⟨⟨m, method⟩, -, rfl⟩ := List.mem_map.mp hdraw
    exact (onLine_lineOf rfl).onScript
  · obtain ⟨⟨m, state⟩, -, rfl⟩ := List.mem_map.mp hstates
    exact (onLine_lineOf rfl).onScript
  · obtain ⟨path, -, hpath⟩ := List.mem_flatMap.mp husing
    exact onScript_require hpath

/-- So are its warnings. -/
theorem onScript_warnings (h : d ∈ (ofMasked p t).warnings) : d.OnScript t := by
  simp only [ofMasked, List.mem_append, or_assoc] at h
  rcases h with hseries | hrange | hprint | hoverlay
  · obtain ⟨⟨m, type⟩, -, rfl⟩ := List.mem_map.mp hseries
    exact (onLine_lineOf rfl).onScript
  · obtain ⟨m, -, rfl⟩ := List.mem_map.mp hrange
    exact (onLine_lineOf rfl).onScript
  · obtain ⟨line, hline, rfl⟩ := List.mem_map.mp hprint
    obtain ⟨m, -, rfl⟩ := List.mem_map.mp (List.mem_eraseDups.mp hline)
    exact (onLine_lineOf rfl).onScript
  · unfold overlayWarnings at hoverlay
    split at hoverlay
    · cases hoverlay
    · split at hoverlay
      · rw [List.mem_singleton.mp hoverlay]
        exact onScript_whole rfl
      · cases hoverlay

end DryRun

/-! ## Audits -/

/-- A rule that finds anything is one of the suite: the base rule is silent, and one that crashes has
no findings. -/
theorem Rule.Registrable.mem_suite {p : Platform} {rule : Rule} (h : Rule.Registrable p rule)
    {src : Source} {found : List Finding} (hfound : rule.find src = .ok found) {f : Finding}
    (hf : f ∈ found) : rule ∈ Rule.suite p := by
  cases h with
  | suite hsuite => exact hsuite
  | silent =>
    cases hfound
    cases hf
  | crashing hcrash =>
    obtain ⟨fault, hfault⟩ := hcrash src
    rw [hfault] at hfound
    cases hfound

namespace Audit

variable {p : Platform} {rules : List Rule} {rule : Rule}

/-- An issue of a rule is the internal one, or one of the rule's findings. -/
theorem finding_of_mem_issuesOf {src : Source} {i : Issue} (h : i ∈ issuesOf src rule) :
    (∃ fault, i = internalIssue rule fault)
      ∨ ∃ found, rule.find src = .ok found ∧ i.toFinding ∈ found ∧ i.check = rule.name := by
  unfold issuesOf Rule.check at h
  cases hfind : rule.find src with
  | error fault =>
    rw [hfind] at h
    exact .inl ⟨fault, List.mem_singleton.mp h⟩
  | ok found =>
    rw [hfind] at h
    obtain ⟨f, hf, rfl⟩ := List.mem_map.mp h
    exact .inr ⟨found, rfl, hf, rfl⟩

/-- **An issue of a rule that may be registered** is on a line or on the whole script. The internal
one is on the whole script. -/
theorem onScript_issuesOf (hrule : Rule.Registrable p rule) {code : Text} {i : Issue}
    (h : i ∈ issuesOf (Source.ofCode code) rule) : i.OnScript code := by
  rcases finding_of_mem_issuesOf h with ⟨fault, rfl⟩ | ⟨found, hfound, hi, -⟩
  · exact Diagnostic.onScript_whole rfl
  · exact Rule.onScript_of_mem_suite (hrule.mem_suite hfound hi) hfound hi

/-- An issue that has the name of a rule that remarks on lines is on a line. -/
theorem onLine_issuesOf (hrule : Rule.Registrable p rule) {code : Text} {i : Issue}
    (h : i ∈ issuesOf (Source.ofCode code) rule) (hcheck : i.check ∈ Rule.lineRules.map (·.name)) :
    i.OnLine code := by
  rcases finding_of_mem_issuesOf h with ⟨fault, rfl⟩ | ⟨found, hfound, hi, hname⟩
  · have hinternal : "internal" ∉ Rule.lineRules.map (·.name) := by decide
    exact absurd hcheck hinternal
  · rw [hname] at hcheck
    obtain ⟨other, hother, heq⟩ := List.mem_map.mp hcheck
    have hsub : Rule.lineRules ⊆ Rule.suite p := by simp [Rule.lineRules, Rule.suite]
    -- the names of the suite are distinct, so that the rule is the one of that name
    obtain rfl := List.inj_on_of_nodup_map (Rule.nodup_names_suite p) (hsub hother)
      (hrule.mem_suite hfound hi) heq
    exact Rule.onLine_of_mem_lineRules hother hfound hi

/-- **Every reported line exists.** An issue of an audit and a remark of a dry run is on a line of the
script or on the whole script; the issues on brush properties, properties, alerts and balance are on
lines. -/
theorem line_issues_and_remarks (p : Platform) {rules : List Rule}
    (h : ∀ rule ∈ rules, Rule.Registrable p rule) (strict autoFix : Bool) (code : Text) :
    (∀ i ∈ (run rules strict autoFix code).issues, 0 ≤ i.line ∧ i.line ≤ (lines code).length)
      ∧ (∀ d ∈ (DryRun.run p code).errors ++ (DryRun.run p code).warnings,
        0 ≤ d.line ∧ d.line ≤ (lines code).length)
      ∧ ∀ i ∈ (run rules strict autoFix code).issues,
        i.check ∈ ["brush_serialization", "properties", "alert_realtime", "syntax"] → 1 ≤ i.line := by
  refine ⟨?_, ?_, ?_⟩
  · intro i hi
    rw [run_issues] at hi
    obtain ⟨rule, hrule, hissue⟩ := List.mem_flatMap.mp hi
    exact onScript_issuesOf (h rule hrule) hissue
  · intro d hd
    have hlines : (lines (Lexing.mask code)).length = (lines code).length :=
      length_lines_masked (Source.ofCode code)
    rcases List.mem_append.mp hd with herror | hwarning
    · exact (DryRun.onScript_errors herror).congr hlines
    · exact (DryRun.onScript_warnings hwarning).congr hlines
  · intro i hi hcheck
    rw [run_issues] at hi
    obtain ⟨rule, hrule, hissue⟩ := List.mem_flatMap.mp hi
    exact (onLine_issuesOf (h rule hrule) hissue hcheck).1

/-- A brace that is never closed is reported on the last line, also when that line is empty. -/
theorem line_issues_and_remarks_openBrace :
    let code := "\x7b\n".toList
    (∀ i ∈ (run wholeStock.rules true true code).issues, 0 ≤ i.line ∧ i.line ≤ (lines code).length)
      ∧ (∀ d ∈ (DryRun.run .nt8 code).errors ++ (DryRun.run .nt8 code).warnings,
        0 ≤ d.line ∧ d.line ≤ (lines code).length)
      ∧ ∀ i ∈ (run wholeStock.rules true true code).issues,
        i.check ∈ ["brush_serialization", "properties", "alert_realtime", "syntax"] → 1 ≤ i.line :=
  line_issues_and_remarks .nt8 wholeStock.registrable true true _

end Audit

end ChartLint
