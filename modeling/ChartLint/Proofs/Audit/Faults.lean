import ChartLint.Audit
import ChartLint.Proofs.Rule.Readings

/-!
# Audits never fail

An audit looks up lines by their numbers, starts of lines, characters by their offsets and names of
places, and reads numerals; the repair behind it looks up lines again. Each lookup may fail, and what a
rule fails with becomes an internal issue, while a repair that fails takes the audit with it.

The audit of a script always answers (`internal_iff_overlong`). Eight of the nine rules have every lookup
answered (`exists_find_of_ne_series`, from what `ChartLint.Proofs.Rule.Readings` says of each), and so has
the repair. The ninth, `Rule.series`, gives up for one reason: a script that adds a series refers to a
series by a numeral with more digits than are read as a number. Its audit has one internal issue in place
of the issues of that rule, and what the other eight rules find is what each of them finds alone.
-/

namespace ChartLint

/-! ## The rule that may give up -/

namespace Rule.Series

/-- The script adds a series, and it refers to a series by a numeral that is too long to be read. -/
def Overlong (masked : Text) : Prop :=
  addition.findAll masked ≠ []
    ∧ ∃ m ∈ reference.findAll masked, Text.digitLimit < (m.part .name masked).length

/-- A numeral that is too long makes the report on a reference fail. -/
theorem referenceFinding_of_long {masked : Text} (count : Nat) {m : Match}
    (hm : m ∈ reference.findAll masked) (h : Text.digitLimit < (m.part .name masked).length) :
    referenceFinding masked count m = .error (.longNumeral (m.part .name masked).length) := by
  rw [referenceFinding, numberOf_of_mem_findAll hm, if_pos h]
  rfl

/-- Any other numeral is read. -/
theorem referenceFinding_of_short {masked : Text} (count : Nat) {m : Match}
    (hm : m ∈ reference.findAll masked) (h : ¬ Text.digitLimit < (m.part .name masked).length) :
    ∃ found, referenceFinding masked count m = .ok found := by
  rw [referenceFinding, numberOf_of_mem_findAll hm, if_neg h]
  exact ⟨_, rfl⟩

/-- **A numeral that is too long** makes the rule give up, with the length of such a numeral. -/
theorem findings_of_overlong {masked : Text} (h : Overlong masked) :
    ∃ n, Text.digitLimit < n ∧ findings masked = .error (.longNumeral n) := by
  obtain ⟨hadds, m, hm, hlong⟩ := h
  obtain ⟨m', hm', fault, hfault, hall⟩ := filterMapM_eq_error hm
    (referenceFinding_of_long (addition.findAll masked).length hm hlong)
  have hlong' : Text.digitLimit < (m'.part .name masked).length := by
    by_contra hshort
    obtain ⟨found, hfound⟩ := referenceFinding_of_short (addition.findAll masked).length hm' hshort
    rw [hfound] at hfault
    cases hfault
  rw [referenceFinding_of_long _ hm' hlong', Except.error.injEq] at hfault
  refine ⟨_, hlong', ?_⟩
  unfold findings
  split
  · next hnone => exact absurd hnone hadds
  · simp only [indexRange, hall, ← hfault]
    rfl

/-- **Without one** the rule reports. -/
theorem findings_of_not_overlong {masked : Text} (h : ¬ Overlong masked) :
    ∃ found, findings masked = .ok found := by
  unfold findings
  split
  · exact ⟨[], rfl⟩
  · next hadds =>
    have hshort : ∀ m ∈ reference.findAll masked,
        ∃ found, referenceFinding masked (addition.findAll masked).length m = .ok found := by
      intro m hm
      exact referenceFinding_of_short _ hm (fun hlong => h ⟨hadds, m, hm, hlong⟩)
    obtain ⟨found, hfound⟩ := exists_filterMapM hshort
    exact ⟨_, by simp only [indexRange, hfound]; rfl⟩

end Rule.Series

/-! ## The suite -/

namespace Rule

/-- **Eight rules** of the suite report on every script, for all tables: whatever they look up is there. -/
theorem exists_find_of_ne_series {p : Platform} {rule : Rule} (h : rule ∈ suite p)
    (hne : rule.name ≠ series.name) (src : Source) : ∃ found, rule.find src = .ok found := by
  simp only [suite, List.mem_cons, List.not_mem_nil, or_false] at h
  rcases h with rfl | rfl | rfl | rfl | rfl | rfl | rfl | rfl | rfl
  -- balance, ticks, alerts and the panel are read without a lookup
  · exact ⟨_, rfl⟩
  · exact Skeleton.exists_findings p src
  · exact ⟨_, Brush.findings_eq src.masked⟩
  · exact ⟨_, rfl⟩
  · exact ⟨_, Property.findings_eq src.masked⟩
  · exact absurd rfl hne
  · exact Resource.exists_findings p src
  · exact ⟨_, rfl⟩
  · exact ⟨_, rfl⟩

theorem names_suite (p : Platform) : (suite p).map (·.name)
    = ["syntax", "structure", "brush_serialization", "anti_doublon", "properties",
       "multi_timeframe", "memory", "alert_realtime", "panel_visibility"] :=
  rfl

theorem nodup_names_suite (p : Platform) : ((suite p).map (·.name)).Nodup := by
  rw [names_suite]
  decide

theorem internal_not_mem_names_suite (p : Platform) : "internal" ∉ (suite p).map (·.name) := by
  rw [names_suite]
  decide

end Rule

namespace Audit

variable {src : Source} {rules : List Rule} {rule : Rule}

/-- The issues of one rule have its name, or they are one internal issue. -/
theorem check_of_mem_issuesOf {i : Issue} (h : i ∈ issuesOf src rule) :
    i.check = rule.name ∨ (i.check = "internal" ∧ ∃ fault, rule.check src = .error fault) := by
  unfold issuesOf at h
  split at h
  · next issues hok =>
    left
    unfold Rule.check at hok
    cases hfind : rule.find src with
    | error fault =>
      rw [hfind] at hok
      cases hok
    | ok found =>
      rw [hfind] at hok
      cases hok
      obtain ⟨f, -, rfl⟩ := List.mem_map.mp h
      rfl
  · next fault herror =>
    rw [List.mem_singleton.mp h]
    exact .inr ⟨rfl, fault, herror⟩

/-- What a name selects from the issues of another rule: nothing. -/
theorem filter_issuesOf_of_ne {name : String} (hne : rule.name ≠ name) (hname : name ≠ "internal") :
    (issuesOf src rule).filter (fun i => i.check == name) = [] := by
  rw [List.filter_eq_nil_iff]
  intro i hi hcheck
  rw [beq_iff_eq] at hcheck
  rcases check_of_mem_issuesOf hi with hrule | ⟨hinternal, -⟩
  · exact hne (hrule.symm.trans hcheck)
  · exact hname (hcheck.symm.trans hinternal)

/-- **Each rule stands for itself:** its name selects its own issues from those of an audit, and
nothing when it gave up. -/
theorem filter_issues_name (hnodup : (rules.map (·.name)).Nodup)
    (hinternal : "internal" ∉ rules.map (·.name)) (hmem : rule ∈ rules) :
    (rules.flatMap (issuesOf src)).filter (fun i => i.check == rule.name)
      = (issuesOf src rule).filter (fun i => i.check == rule.name) := by
  induction rules with
  | nil => cases hmem
  | cons first others ih =>
    rw [List.map_cons, List.nodup_cons] at hnodup
    rw [List.map_cons, List.mem_cons, not_or] at hinternal
    have hname : rule.name ≠ "internal" := by
      intro heq
      rcases List.mem_cons.mp hmem with rfl | hlater
      · exact hinternal.1 heq.symm
      · exact hinternal.2 (heq ▸ List.mem_map_of_mem hlater)
    rw [List.flatMap_cons, List.filter_append]
    rcases List.mem_cons.mp hmem with rfl | hlater
    · have hothers : (others.flatMap (issuesOf src)).filter (fun i => i.check == rule.name) = [] := by
        rw [List.filter_flatMap, List.flatMap_eq_nil_iff]
        intro other hother
        refine filter_issuesOf_of_ne (fun heq => hnodup.1 ?_) hname
        rw [← heq]
        exact List.mem_map_of_mem hother
      rw [hothers, List.append_nil]
    · have hfirst : first.name ≠ rule.name := by
        intro heq
        exact hnodup.1 (heq ▸ List.mem_map_of_mem hlater)
      rw [filter_issuesOf_of_ne hfirst hname, List.nil_append]
      exact ih hnodup.2 hinternal.2 hlater

/-- The internal issue that a rule leaves, if it gave up. -/
def internal? (src : Source) (rule : Rule) : Option Issue :=
  match rule.check src with
  | .ok _ => none
  | .error fault => some (internalIssue rule fault)

/-- The internal issues of an audit are those of the rules that gave up. -/
theorem filter_issues_internal (hinternal : "internal" ∉ rules.map (·.name)) :
    (rules.flatMap (issuesOf src)).filter (fun i => i.check == "internal")
      = rules.filterMap (internal? src) := by
  induction rules with
  | nil => rfl
  | cons first others ih =>
    rw [List.map_cons, List.mem_cons, not_or] at hinternal
    have hfirst : (issuesOf src first).filter (fun i => i.check == "internal")
        = (internal? src first).toList := by
      cases hcheck : first.check src with
      | error fault =>
        simp only [issuesOf, internal?, hcheck]
        rfl
      | ok issues =>
        simp only [internal?, hcheck, Option.toList_none, List.filter_eq_nil_iff]
        intro i hi heq
        rw [beq_iff_eq] at heq
        rcases check_of_mem_issuesOf hi with hname | ⟨-, fault, herror⟩
        · exact hinternal.1 (heq.symm.trans hname)
        · rw [hcheck] at herror
          cases herror
    rw [List.flatMap_cons, List.filter_append, hfirst, ih hinternal.2]
    cases hcase : internal? src first <;> simp [hcase]

/-! ## The condition -/

theorem check_series_of_overlong {code : Text}
    (h : Rule.Series.Overlong (Source.ofCode code).masked) : ∃ n, Text.digitLimit < n
      ∧ Rule.series.check (Source.ofCode code) = .error (.longNumeral n) := by
  obtain ⟨n, hn, hfault⟩ := Rule.Series.findings_of_overlong h
  refine ⟨n, hn, ?_⟩
  rw [Rule.check, show Rule.series.find (Source.ofCode code) = .error (.longNumeral n) from hfault]
  rfl

theorem check_of_ne_series {p : Platform} (h : rule ∈ Rule.suite p)
    (hne : rule.name ≠ Rule.series.name) (src : Source) :
    ∃ issues, rule.check src = .ok issues := by
  obtain ⟨found, hfound⟩ := Rule.exists_find_of_ne_series h hne src
  exact ⟨_, by rw [Rule.check, hfound]; rfl⟩

theorem internal?_of_ok {issues : List Issue} (h : rule.check src = .ok issues) :
    internal? src rule = none := by
  simp only [internal?, h]

/-- Of the suite, only the rule on series can leave an internal issue. -/
theorem internal?_suite (p : Platform) (src : Source) :
    (Rule.suite p).filterMap (internal? src) = (internal? src .series).toList := by
  have hnone : ∀ rule ∈ Rule.suite p, rule.name ≠ Rule.series.name → internal? src rule = none := by
    intro rule hrule hne
    obtain ⟨issues, hok⟩ := check_of_ne_series hrule hne src
    exact internal?_of_ok hok
  have hsplit : Rule.suite p = [.balance, .skeleton p, .brush, .tick, .property] ++ .series ::
      [.resource p, .alert, .panel] := rfl
  have hnames := Rule.nodup_names_suite p
  rw [hsplit, List.map_append, List.nodup_append] at hnames
  have hbefore : [Rule.balance, .skeleton p, .brush, .tick, .property].filterMap (internal? src)
      = [] := by
    rw [List.filterMap_eq_nil_iff]
    intro rule hrule
    refine hnone rule (by rw [hsplit]; exact List.mem_append_left _ hrule) ?_
    exact hnames.2.2 _ (List.mem_map_of_mem hrule) _ (List.mem_cons_self)
  have hbehind : [Rule.resource p, .alert, .panel].filterMap (internal? src) = [] := by
    rw [List.filterMap_eq_nil_iff]
    intro rule hrule
    refine hnone rule (by rw [hsplit]; simp only [List.mem_append, List.mem_cons, hrule]; tauto) ?_
    intro heq
    exact (List.nodup_cons.mp hnames.2.1).1 (List.mem_map.mpr ⟨rule, hrule, heq⟩)
  rw [hsplit, List.filterMap_append, hbefore, List.nil_append, List.filterMap_cons, hbehind]
  cases internal? src .series <;> rfl

/-- What an audit makes of a script whose numerals are too long. -/
structure Contained (p : Platform) (src : Source) (issues : List Issue) : Prop where
  /-- There is one internal issue, an error on the whole script that names the rule. -/
  internal : ∃ n, Text.digitLimit < n ∧ issues.filter (fun i => i.check == "internal")
    = [{ severity := .error
         line := 0
         message := "Checker multi_timeframe failed: " ++ (Fault.longNumeral n).message
         check := "internal" }]
  /-- The rule has no issue of its own. -/
  noSeries : ∀ i ∈ issues, i.check ≠ "multi_timeframe"
  /-- Every other rule has the issues that it has alone. -/
  others : ∀ rule ∈ Rule.suite p, rule.name ≠ "multi_timeframe" →
    rule.check src = .ok (issues.filter (fun i => i.check == rule.name))

theorem filter_issues_of_ok {p : Platform} (hrule : rule ∈ Rule.suite p)
    (hne : rule.name ≠ Rule.series.name) (src : Source) :
    rule.check src = .ok (((Rule.suite p).flatMap (issuesOf src)).filter
      (fun i => i.check == rule.name)) := by
  obtain ⟨issues, hok⟩ := check_of_ne_series hrule hne src
  rw [filter_issues_name (Rule.nodup_names_suite p) (Rule.internal_not_mem_names_suite p) hrule,
    hok, Except.ok.injEq, eq_comm, List.filter_eq_self.mpr]
  · simp only [issuesOf, hok]
  · intro i hi
    rcases check_of_mem_issuesOf hi with hname | ⟨-, fault, herror⟩
    · rw [hname, beq_self_eq_true]
    · rw [hok] at herror
      cases herror

theorem contained_of_overlong (p : Platform) {code : Text}
    (h : Rule.Series.Overlong (Source.ofCode code).masked) :
    Contained p (Source.ofCode code) ((Rule.suite p).flatMap (issuesOf (Source.ofCode code))) := by
  obtain ⟨n, hn, herror⟩ := check_series_of_overlong h
  have hseries : Rule.series ∈ Rule.suite p := by simp [Rule.suite]
  refine ⟨⟨n, hn, ?_⟩, ?_, fun rule hrule hne => filter_issues_of_ok hrule hne _⟩
  · rw [filter_issues_internal (Rule.internal_not_mem_names_suite p), internal?_suite]
    simp only [internal?, herror]
    rfl
  · intro i hi hname
    have hmem : i ∈ ((Rule.suite p).flatMap (issuesOf (Source.ofCode code))).filter
        (fun i => i.check == Rule.series.name) := List.mem_filter.mpr ⟨hi, by rw [hname]; rfl⟩
    rw [filter_issues_name (Rule.nodup_names_suite p) (Rule.internal_not_mem_names_suite p) hseries]
      at hmem
    simp only [issuesOf, herror] at hmem
    cases hmem

/-- **Audits never fail.** Whatever the tables and the script, an audit answers. It has an internal issue
exactly when a script that adds a series refers to one by a numeral that is too long to be read; and then
the failure is contained in the one rule. -/
theorem internal_iff_overlong (p : Platform) (strict autoFix : Bool) (code : Text) :
    ∃ audit, attempt (Rule.suite p) strict autoFix code = .ok audit
      ∧ ((∃ i ∈ audit.issues, i.check = "internal") ↔ Rule.Series.Overlong (Lexing.mask code))
      ∧ (Rule.Series.Overlong (Lexing.mask code) → Contained p (Source.ofCode code) audit.issues) := by
  refine ⟨run (Rule.suite p) strict autoFix code, eq_ok_valueOf _, ?_⟩
  rw [run_issues]
  refine ⟨⟨?_, ?_⟩, contained_of_overlong p⟩
  · rintro ⟨i, hi, hcheck⟩
    by_contra hshort
    obtain ⟨found, hfound⟩ := Rule.Series.findings_of_not_overlong hshort
    have hok : ∃ issues, Rule.series.check (Source.ofCode code) = .ok issues :=
      ⟨_, by
        rw [Rule.check, show Rule.series.find (Source.ofCode code) = .ok found from hfound]
        rfl⟩
    obtain ⟨own, hown⟩ := hok
    have hnone : ((Rule.suite p).flatMap (issuesOf (Source.ofCode code))).filter
        (fun i => i.check == "internal") = [] := by
      rw [filter_issues_internal (Rule.internal_not_mem_names_suite p), internal?_suite,
        internal?_of_ok hown]
      rfl
    exact List.filter_eq_nil_iff.mp hnone i hi (by rw [hcheck]; rfl)
  · intro hlong
    obtain ⟨n, -, hinternal⟩ := (contained_of_overlong p hlong).internal
    obtain ⟨hi, hcheck⟩ := List.mem_filter.mp (hinternal ▸ List.mem_singleton.mpr rfl)
    exact ⟨_, hi, beq_iff_eq.mp hcheck⟩

end Audit

end ChartLint
