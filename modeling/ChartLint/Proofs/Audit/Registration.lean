import ChartLint.Proofs.Audit.Faults
import ChartLint.Proofs.Repair.Steps
import Mathlib.Data.List.Nodup

/-!
# The order of registration

An audit registers rules from a fixed stock (`Registry`), in any order and as often as it likes. The
order and the repetitions show in the order of the issues and nowhere else: audits that register the
same names have the same issues, up to order and repetition, the same verdict and the same repair
(`run_congr_registered`).

The repair needs an argument, since it mends one property after the other and each insertion moves the
text behind it. Its order of work is the order in which the properties are first named, and of all
rules only `Rule.brush` names properties to mend. However often that rule runs, the first run names
them all.
-/

namespace ChartLint

namespace Rule

/-- The rule gives up, whatever the source. -/
def Crashes (rule : Rule) : Prop :=
  ∀ src, ∃ fault, rule.find src = .error fault

/-- **A rule that audits may register:** one of the suite, the silent rule, or a rule that crashes. -/
inductive Registrable (p : Platform) : Rule → Prop where
  | suite {rule : Rule} (h : rule ∈ Rule.suite p) : Registrable p rule
  | silent : Registrable p Rule.silent
  | crashing {rule : Rule} (h : rule.Crashes) : Registrable p rule

/-- A stock of rules to register, each known by its name. That no two rules of the stock share a name is
an assumption: the suite and the silent rule have different names, but nothing keeps two rules that crash
from having the same one, and then a name does not say which of them is registered. -/
structure Registry (p : Platform) where
  rules : List Rule
  registrable : ∀ rule ∈ rules, Registrable p rule
  nodup : (rules.map (·.name)).Nodup

/-- A name stands for one rule. -/
theorem Registry.eq_of_name {p : Platform} (reg : Registry p) {rule rule' : Rule}
    (h : rule ∈ reg.rules) (h' : rule' ∈ reg.rules) (hname : rule.name = rule'.name) : rule = rule' :=
  List.inj_on_of_nodup_map reg.nodup h h' hname

/-- **Names decide what is registered:** of two lists from one stock with the same names each has the
rules of the other. -/
theorem Registry.mem_iff_of_names {p : Platform} (reg : Registry p) {rules rules' : List Rule}
    (h : rules ⊆ reg.rules) (h' : rules' ⊆ reg.rules)
    (hnames : ∀ name, name ∈ rules.map (·.name) ↔ name ∈ rules'.map (·.name)) (rule : Rule) :
    rule ∈ rules ↔ rule ∈ rules' := by
  constructor
  · intro hrule
    obtain ⟨other, hother, hname⟩ := List.mem_map.mp ((hnames rule.name).mp (List.mem_map_of_mem hrule))
    rwa [← reg.eq_of_name (h' hother) (h hrule) hname]
  · intro hrule
    obtain ⟨other, hother, hname⟩ := List.mem_map.mp ((hnames rule.name).mpr (List.mem_map_of_mem hrule))
    rwa [← reg.eq_of_name (h hother) (h' hrule) hname]

end Rule

/-- The verdict does not hang on the order of the issues. -/
theorem verdict_congr_mem (strict : Bool) {issues issues' : List Issue}
    (h : ∀ i, i ∈ issues ↔ i ∈ issues') : verdict strict issues = verdict strict issues' := by
  have hany : ∀ f : Issue → Bool, issues.any f = issues'.any f := by
    intro f
    rw [Bool.eq_iff_iff, List.any_eq_true, List.any_eq_true]
    exact exists_congr (fun i => and_congr_left' (h i))
  rw [verdict, verdict, hany, hany]

namespace Audit

variable {p : Platform} {src : Source} {rules rules' : List Rule} {rule : Rule}

/-! ## What is to be mended -/

/-- The properties that issues ask to mend, in the order in which they are named. -/
def mentions (issues : List Issue) : List String :=
  (issues.filter (fun i => i.check == Rule.brush.name && i.autoFixable)).filterMap
    (fun i => i.subject.filter (fun s => !s.isEmpty))

theorem subjects_eq_mentions (issues : List Issue) :
    Repair.subjects issues = (mentions issues).eraseDups :=
  rfl

theorem mentions_flatMap (rules : List Rule) :
    mentions (rules.flatMap (issuesOf src)) = rules.flatMap (fun rule => mentions (issuesOf src rule)) := by
  rw [mentions, List.filter_flatMap, List.filterMap_flatMap]
  rfl

theorem mentions_of_check {issues : List Issue} (h : ∀ i ∈ issues, i.check ≠ Rule.brush.name) :
    mentions issues = [] := by
  have hnone : issues.filter (fun i => i.check == Rule.brush.name && i.autoFixable) = [] := by
    rw [List.filter_eq_nil_iff]
    intro i hi hmended
    rw [Bool.and_eq_true, beq_iff_eq] at hmended
    exact h i hi hmended.1
  rw [mentions, hnone]
  rfl

theorem issuesOf_of_crashes (src : Source) (h : rule.Crashes) :
    ∃ fault, issuesOf src rule = [internalIssue rule fault] := by
  obtain ⟨fault, hfault⟩ := h src
  refine ⟨fault, ?_⟩
  unfold issuesOf Rule.check
  rw [hfault]
  rfl

/-- **Only the brush rule** names properties to mend. -/
theorem mentions_issuesOf (h : Rule.Registrable p rule) (hne : rule ≠ .brush) :
    mentions (issuesOf src rule) = [] := by
  apply mentions_of_check
  intro i hi
  cases h with
  | suite hsuite =>
    have hname : rule.name ≠ Rule.brush.name := by
      intro heq
      have hbrush : Rule.brush ∈ Rule.suite p := by simp [Rule.suite]
      exact hne (List.inj_on_of_nodup_map (Rule.nodup_names_suite p) hsuite hbrush heq)
    rcases check_of_mem_issuesOf hi with hcheck | ⟨hcheck, -⟩
    · rwa [hcheck]
    · rw [hcheck]
      decide
  | silent => cases hi
  | crashing hcrash =>
    obtain ⟨fault, hissues⟩ := issuesOf_of_crashes src hcrash
    rw [hissues, List.mem_singleton] at hi
    rw [hi]
    show "internal" ≠ Rule.brush.name
    decide

/-- What stands in a list already adds nothing behind it. -/
theorem eraseDups_append_of_subset {α : Type} [BEq α] [LawfulBEq α] {xs ys : List α} (h : ys ⊆ xs) :
    (xs ++ ys).eraseDups = xs.eraseDups := by
  have hnone : ys.removeAll xs = [] := by
    rw [List.removeAll, List.filter_eq_nil_iff]
    intro y hy
    simpa using h hy
  rw [List.eraseDups_append, hnone, List.eraseDups_nil, List.append_nil]

section Subjects

variable (hrules : ∀ rule ∈ rules, Rule.Registrable p rule)

include hrules

theorem mentions_subset : mentions (rules.flatMap (issuesOf src)) ⊆ mentions (issuesOf src .brush) := by
  intro s hs
  rw [mentions_flatMap] at hs
  obtain ⟨rule, hrule, hmention⟩ := List.mem_flatMap.mp hs
  by_cases hbrush : rule = .brush
  · rwa [hbrush] at hmention
  · rw [mentions_issuesOf (hrules rule hrule) hbrush] at hmention
    cases hmention

theorem subjects_of_not_mem (h : Rule.brush ∉ rules) :
    Repair.subjects (rules.flatMap (issuesOf src)) = [] := by
  have hnone : mentions (rules.flatMap (issuesOf src)) = [] := by
    rw [mentions_flatMap, List.flatMap_eq_nil_iff]
    intro rule hrule
    refine mentions_issuesOf (hrules rule hrule) ?_
    rintro rfl
    exact h hrule
  rw [subjects_eq_mentions, hnone, List.eraseDups_nil]

/-- **The order of the repair** is the order of the brush rule, once that rule is registered. -/
theorem subjects_of_mem (h : Rule.brush ∈ rules) :
    Repair.subjects (rules.flatMap (issuesOf src)) = Repair.subjects (issuesOf src .brush) := by
  rw [subjects_eq_mentions, subjects_eq_mentions]
  induction rules with
  | nil => cases h
  | cons rule others ih =>
    have hothers : ∀ other ∈ others, Rule.Registrable p other :=
      fun other hother => hrules other (List.mem_cons_of_mem rule hother)
    rw [mentions_flatMap, List.flatMap_cons, ← mentions_flatMap]
    by_cases hbrush : rule = .brush
    · -- the first run of the rule names all properties
      rw [hbrush]
      exact eraseDups_append_of_subset (mentions_subset hothers)
    · rw [mentions_issuesOf (hrules rule List.mem_cons_self) hbrush, List.nil_append]
      exact ih hothers ((List.mem_cons.mp h).resolve_left (fun heq => hbrush heq.symm))

end Subjects

theorem subjects_congr (src : Source) (hrules : ∀ rule ∈ rules, Rule.Registrable p rule)
    (hrules' : ∀ rule ∈ rules', Rule.Registrable p rule) (h : ∀ rule, rule ∈ rules ↔ rule ∈ rules') :
    Repair.subjects (rules.flatMap (issuesOf src)) = Repair.subjects (rules'.flatMap (issuesOf src)) := by
  by_cases hbrush : Rule.brush ∈ rules
  · rw [subjects_of_mem hrules hbrush, subjects_of_mem hrules' ((h _).mp hbrush)]
  · rw [subjects_of_not_mem hrules hbrush, subjects_of_not_mem hrules' (fun hmem => hbrush ((h _).mpr hmem))]

/-! ## Two audits -/

theorem mem_issues_congr (src : Source) (h : ∀ rule, rule ∈ rules ↔ rule ∈ rules') (i : Issue) :
    i ∈ rules.flatMap (issuesOf src) ↔ i ∈ rules'.flatMap (issuesOf src) := by
  rw [List.mem_flatMap, List.mem_flatMap]
  exact exists_congr (fun rule => and_congr_left' (h rule))

/-- **Registration order and repetition do not matter.** Two lists of rules from one stock that
register the same names give audits with the same verdict, the same repair and the same issues up to
their order and repetition. -/
theorem run_congr_registered {p : Platform} (reg : Rule.Registry p) {rules rules' : List Rule}
    (h : rules ⊆ reg.rules) (h' : rules' ⊆ reg.rules)
    (hnames : ∀ name, name ∈ rules.map (·.name) ↔ name ∈ rules'.map (·.name))
    (strict autoFix : Bool) (code : Text) :
    (run rules strict autoFix code).verdict = (run rules' strict autoFix code).verdict
      ∧ (run rules strict autoFix code).fixedCode = (run rules' strict autoFix code).fixedCode
      ∧ ∀ i, i ∈ (run rules strict autoFix code).issues ↔ i ∈ (run rules' strict autoFix code).issues := by
  have hmem := reg.mem_iff_of_names h h' hnames
  have hissues := mem_issues_congr (Source.ofCode code) hmem
  simp only [run_verdict, run_issues, run_fixedCode]
  refine ⟨verdict_congr_mem strict hissues, ?_, hissues⟩
  have hsubjects := subjects_congr (Source.ofCode code)
    (fun rule hrule => reg.registrable rule (h hrule)) (fun rule hrule => reg.registrable rule (h' hrule)) hmem
  rw [hsubjects, Repair.run_congr_subjects hsubjects]

/-- A rule that crashes. -/
def exploding : Rule :=
  ⟨"exploding", "ExplodingChecker", fun _ => .error (.gaveUp "boom")⟩

/-- The suite, the silent rule and a rule that crashes. -/
def wholeStock : Rule.Registry .nt8 where
  rules := Rule.suite .nt8 ++ [.silent, exploding]
  registrable := by
    intro rule hrule
    rcases List.mem_append.mp hrule with hsuite | hextra
    · exact .suite hsuite
    · rcases List.mem_cons.mp hextra with rfl | hlast
      · exact .silent
      · obtain rfl := List.mem_singleton.mp hlast
        exact .crashing (fun _ => ⟨_, rfl⟩)
  nodup := by decide

/-- A script with two properties to mend, audited in two orders and with a rule that crashes. -/
theorem run_congr_registered_twoBrushes :
    let code := "public Brush B \x7b get; set; \x7d\npublic Brush A \x7b get; set; \x7d".toList
    let rules := [Rule.balance, exploding, .brush]
    let rules' := [Rule.brush, .balance, exploding, .brush, .balance]
    (run rules true true code).verdict = (run rules' true true code).verdict
      ∧ (run rules true true code).fixedCode = (run rules' true true code).fixedCode
      ∧ ∀ i, i ∈ (run rules true true code).issues ↔ i ∈ (run rules' true true code).issues := by
  refine run_congr_registered wholeStock ?_ ?_ ?_ true true _
  · simp [wholeStock, Rule.suite]
  · simp [wholeStock, Rule.suite]
  · intro name
    simp only [List.map_cons, List.map_nil, List.mem_cons, List.not_mem_nil]
    tauto

end Audit

end ChartLint
