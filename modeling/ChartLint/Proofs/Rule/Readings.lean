import ChartLint.Proofs.Pattern.Kept
import ChartLint.Proofs.Source.Lookup
import ChartLint.Proofs.Steps
import ChartLint.Rule.Brush
import ChartLint.Rule.Property
import ChartLint.Rule.Resource
import ChartLint.Rule.Series
import ChartLint.Rule.Skeleton

/-!
# What the rules read

Four rules look up what need not be there: the lines around a declaration, the line of a drawing call,
the name of the place of a statement, the characters at which a signal starts. Each of these lookups
answers, so each of the rules reports, and what it reports is said here without a lookup: `findings_eq`
of `Rule.Brush`, `Rule.Property`, `Rule.Resource` and `Rule.Skeleton`. A fifth rule reads numbers; it
reports unless a number is too long (`numberOf_of_mem_findAll`).
-/

namespace ChartLint.Rule

open Pattern Source Text

/-- What a rule says when it does not give up. -/
theorem check_eq {rule : Rule} {src : Source} {found : List Finding} (h : rule.find src = .ok found) :
    rule.check src = .ok (found.map (fun f => { f with check := rule.name })) := by
  rw [check, h, map_ok]

/-! ## Brush properties -/

namespace Brush

/-- **The attribute** is looked for on the line at a cut and on the lines above it. -/
theorem isIgnored?_append (g x : Text) :
    isIgnored? (lines (g ++ x)) (lineOf (g ++ x) g.length)
      = .ok (xmlIgnore.occursIn (ownLine g x) || ignoredAbove ((above g).take lookback)) := by
  rw [isIgnored?, lineAt_append, linesAbove_append]
  rfl

/-- The question about a declaration is answered with yes or no. -/
theorem isIgnored?_eq_decide {t u : Text} (h : (lines u).length = (lines t).length) (offset : Nat) :
    isIgnored? (lines u) (lineOf t offset)
      = .ok (decide (isIgnored? (lines u) (lineOf t offset) = .ok true)) := by
  obtain ⟨ignored, hignored⟩ := exists_isIgnored? h offset
  rw [hignored]
  cases ignored <;> rfl

/-- The reports on one declaration. -/
def reportsOn (masked : Text) (m : Match) : List Finding :=
  let prop := m.part .name masked
  let line := lineOf masked m.start
  if companionEnding.isSuffixOf prop then
    []
  else
    (attributeFinding? (decide (isIgnored? (lines masked) line = .ok true)) line prop).toList
      ++ (companionFinding? masked line prop).toList

theorem propertyFindings_eq (masked : Text) (m : Match) :
    propertyFindings masked m = .ok (reportsOn masked m) := by
  simp only [propertyFindings, reportsOn]
  split
  · rfl
  · rw [isIgnored?_eq_decide rfl, map_ok]
    simp only [Except.ok.injEq, decide_eq_true_eq]

/-- The reports on all declarations. -/
def reports (masked : Text) : List Finding :=
  (declaration.findAll masked).flatMap (reportsOn masked)

theorem findings_eq (masked : Text) : findings masked = .ok (reports masked) :=
  flatMapM_eq_ok (fun m _ => propertyFindings_eq masked m)

/-- **The rule on brush properties** reports on every script. -/
theorem check_eq (src : Source) :
    Rule.brush.check src
      = .ok ((reports src.masked).map (fun f => { f with check := Rule.brush.name })) :=
  Rule.check_eq (findings_eq src.masked)

end Brush

/-! ## Attributes of properties -/

namespace Property

/-- The attributes of the declaration between `g` and `x`. -/
def attributesOf (g x : Text) : Text :=
  joinLines ((((above g).take lookback).takeWhile (fun l => !endsBlock l)).reverse
    ++ [upTo "public".toList (ownLine g x)])

theorem attributeBlock_append (g x : Text) :
    attributeBlock (lines (g ++ x)) (lineOf (g ++ x) g.length) = .ok (attributesOf g x) := by
  rw [attributeBlock, lineAt_append, linesAbove_append]
  rfl

/-- The reports on one declaration. -/
def reportsOn (masked : Text) (m : Match) : List Finding :=
  let type := String.ofList (m.part .kind masked)
  let prop := m.part .name masked
  let name := String.ofList prop
  let line := lineOf masked m.start
  let attributes := attributesOf (masked.take m.start) (masked.drop m.start)
  if "Serializable".toList.isSuffixOf prop then
    []
  else
    (if type = "Brush" then [] else settingFindings attributes line name)
      ++ rangeFindings attributes line type name

theorem propertyFindings_eq {masked : Text} {m : Match} (h : m.start ≤ masked.length) :
    propertyFindings masked m = .ok (reportsOn masked m) := by
  have hblock := attributeBlock_append (masked.take m.start) (masked.drop m.start)
  rw [List.take_append_drop, List.length_take_of_le h] at hblock
  simp only [propertyFindings, reportsOn, hblock, map_ok]
  split <;> rfl

/-- The reports on all declarations. -/
def reports (masked : Text) : List Finding :=
  (declaration.findAll masked).flatMap (reportsOn masked)

theorem findings_eq (masked : Text) : findings masked = .ok (reports masked) := by
  refine flatMapM_eq_ok (fun m hm => propertyFindings_eq ?_)
  have hbounds := (found_of_mem_findAll hm).bounds
  omega

end Property

/-! ## Resources -/

namespace Resource

theorem exists_seriesFindings (masked : Text) : ∃ found, seriesFindings masked = .ok found := by
  refine exists_filterMapM (fun m _ => ?_)
  unfold seriesFinding?
  split
  · exact ⟨none, rfl⟩
  · next hphase =>
    obtain ⟨place, hplace⟩ := exists_placeName hphase
    exact ⟨_, by rw [hplace, map_ok]⟩

theorem exists_indicatorFindings (p : Platform) (masked : Text) :
    ∃ found, indicatorFindings p masked = .ok found := by
  refine exists_filterMapM (fun m _ => ?_)
  unfold indicatorFinding?
  split
  · next hearly =>
    have hphase : Phase.at? (Phase.marks masked) m.start ≠ some .dataLoaded := by
      intro heq
      rw [heq] at hearly
      cases hearly
    obtain ⟨place, hplace⟩ := exists_placeName hphase
    exact ⟨_, by rw [hplace, map_ok]⟩
  · exact ⟨none, rfl⟩

theorem exists_staticTag? (src : Source) (call : Match) : ∃ tag, staticTag? src call = .ok tag := by
  obtain ⟨line, hline⟩ := exists_lineAt (t := src.masked) rfl call.start
  simp only [staticTag?, hline, map_ok]
  split <;> exact ⟨_, rfl⟩

theorem exists_drawingFinding? (p : Platform) (src : Source) (call : Match) :
    ∃ found, drawingFinding? p src call = .ok found := by
  obtain ⟨tag, htag⟩ := exists_staticTag? src call
  simp only [drawingFinding?, htag, map_ok]
  split <;> exact ⟨_, rfl⟩

theorem exists_drawingFindings (p : Platform) (src : Source) :
    ∃ found, drawingFindings p src = .ok found :=
  exists_filterMapM (fun call _ => exists_drawingFinding? p src call)

/-- **The rule on resources** reports on every script, for all tables. -/
theorem exists_findings (p : Platform) (src : Source) : ∃ found, findings p src = .ok found := by
  obtain ⟨series, hseries⟩ := exists_seriesFindings src.masked
  obtain ⟨indicators, hindicators⟩ := exists_indicatorFindings p src.masked
  obtain ⟨drawings, hdrawings⟩ := exists_drawingFindings p src
  exact ⟨_, by rw [findings, hseries, hindicators, hdrawings]; rfl⟩

end Resource

/-! ## The skeleton -/

namespace Skeleton

theorem mayBeEmpty_signals : entrySignal.mayBeEmpty = false ∧ riskSignal.mayBeEmpty = false := by
  decide

/-- The signals that the script enters with are those of the entries that start outside of comments
and literals. -/
theorem entrySignals_eq (src : Source) :
    entrySignals src
      = .ok (((entrySignal.findAll src.code).filter (fun m => !src.isBlanked m.start)).map
        (·.part .name src.code)) := by
  have hentries : entrySignals src = .ok ((entrySignal.findAll src.code).filterMap
      (fun m => if src.isBlanked m.start then none else some (m.part .name src.code))) :=
    filterMapM_eq_ok (fun m hm => by rw [inToken_of_mem_findAll mayBeEmpty_signals.1 hm, map_ok])
  rw [hentries, filterMap_unless]

theorem exists_signals (src : Source) : ∃ found, signals src = .ok found := by
  have hrisks : ∀ known, ∃ unknown,
      (riskSignal.findAll src.code).filterMapM (riskFinding? src known) = .ok unknown := fun known =>
    exists_filterMapM (fun m hm =>
      ⟨_, by rw [riskFinding?, inToken_of_mem_findAll mayBeEmpty_signals.2 hm, map_ok]⟩)
  obtain ⟨unknown, hunknown⟩ := hrisks _
  exact ⟨_, by rw [signals, entrySignals_eq, ok_bind, hunknown]; rfl⟩

/-- **The rule on the skeleton** reports on every script, for all tables. -/
theorem exists_findings (p : Platform) (src : Source) : ∃ found, findings p src = .ok found := by
  obtain ⟨found, hfound⟩ := exists_signals src
  simp only [findings, hfound, map_ok]
  split
  · exact ⟨_, rfl⟩
  · split <;> exact ⟨_, rfl⟩

end Skeleton

/-! ## Numbers of series -/

namespace Series

/-- What a reference writes is a run of decimal digits. -/
theorem part_reference {t : Text} {m : Match} (hm : m ∈ reference.findAll t) :
    m.part .name t ≠ [] ∧ ∀ c ∈ m.part .name t, isDecimal c = true := by
  have hfound := found_of_mem_findAll hm
  refine ⟨hfound.part_ne_nil (by decide) (by decide), ?_⟩
  refine hfound.forall_mem_part (fun q hq x w u hacc => ?_)
  have hkept : q ∈ [digits, digits] := hq
  obtain rfl : q = digits := by simpa using hkept
  exact (accepts_many1.mp hacc).2

/-- **A number is read** unless it is too long. -/
theorem numberOf_of_mem_findAll {t : Text} {m : Match} (hm : m ∈ reference.findAll t) :
    numberOf (m.part .name t)
      = if digitLimit < (m.part .name t).length then .error (.longNumeral (m.part .name t).length)
        else .ok (decimalValue (m.part .name t)) := by
  obtain ⟨hne, hdecimal⟩ := part_reference hm
  rw [numberOf, if_neg]
  simpa [hne] using hdecimal

end Series

end ChartLint.Rule
