import ChartLint.Proofs.Repair.Progress
import Mathlib.Data.List.Induction

/-!
# What the brush rule asks for

The repair mends the properties that the brush rule reports as mendable. A match of the rule is a
declaration of the text and the other way round (`exists_stands`, `exists_match`). A declaration is
reported as mendable if its attribute or its companion is missing (`Lacks`). So the properties to mend are
those with such a declaration (`mem_subjects`), and they stand in the order of the text (`ordered_lacks`):
nothing that a property lacks is reported in front of the first declaration of an earlier one
(`ordered_subjects`).
-/

namespace ChartLint

open Pattern Text Source Rule Lexing

namespace Repair

/-! ## Declarations and matches -/

/-- A match of the rule is a declaration of a property. -/
theorem exists_stands {t : Text} {m : Match} (h : m ∈ Brush.declaration.findAll t) :
    ∃ prop g x, t = g ++ x ∧ IsName prop ∧ Stands "Brush".toList prop x ∧ m.start = g.length
      ∧ m.part .name t = prop := by
  obtain ⟨g, y, x, rfl, hm⟩ := found_of_mem_findAll h
  obtain ⟨w, r, rfl, hacc, -⟩ := accepts_of_matchAt? hm
  obtain ⟨prop, hprop, hhead⟩ := accepts_declaration.mp hacc
  obtain ⟨hstart, -, hpart⟩ := match_of_isHead hprop hhead hm
  exact ⟨prop, g, w ++ r, rfl, hprop, ⟨w, r, rfl, hhead⟩, hstart, hpart⟩

/-- A declaration of a property is a match of the rule. -/
theorem exists_match {prop g x : Text} (hprop : IsName prop) (h : Stands "Brush".toList prop x) :
    ∃ m ∈ Brush.declaration.findAll (g ++ x), m.start = g.length ∧ m.part .name (g ++ x) = prop := by
  obtain ⟨w, r, rfl, hhead⟩ := h
  obtain ⟨m, hm, hmatch⟩ := exists_mem_findAll (g := g) ofHeads_declaration
    ⟨w, r, rfl, accepts_declaration.mpr ⟨prop, hprop, hhead⟩⟩
  obtain ⟨hstart, -, hpart⟩ := match_of_isHead hprop hhead hmatch
  exact ⟨m, hm, hstart, hpart⟩

theorem pairwise_start_findAll (t : Text) :
    (Brush.declaration.findAll t).Pairwise (fun m m' => m.start ≤ m'.start) :=
  (Pattern.pairwise_start_findAll ofHeads_declaration.consumes t).imp Nat.le_of_lt

/-! ## Declarations that lack something -/

/-- The property between `g` and `x` lacks its attribute or its companion. -/
def Lacks (prop g x : Text) : Prop :=
  ¬ Marked g x ∨ ¬ HasHead "string".toList (prop ++ Brush.companionEnding) (g ++ x)

section Match

variable {prop g x : Text} {m : Match} (hstart : m.start = g.length) (hpart : m.part .name (g ++ x) = prop)

include hstart hpart

/-- **A mendable report** on a declaration says that its attribute is missing, or its companion. -/
theorem lacks_of_mem_reportsOn {f : Finding} (h : f ∈ Brush.reportsOn (g ++ x) m)
    (hfix : f.autoFixable = true) :
    Brush.companionEnding.isSuffixOf prop = false
      ∧ (¬ Marked g x ∨ (¬ HasHead "string".toList (prop ++ Brush.companionEnding) (g ++ x)
        ∧ Brush.companionFinding? (g ++ x) (lineOf (g ++ x) g.length) prop = some f)) := by
  unfold Brush.reportsOn at h
  simp only [hstart, hpart] at h
  split at h
  · cases h
  · next hsuffix =>
    refine ⟨Bool.eq_false_iff.mpr hsuffix, ?_⟩
    rw [List.mem_append, Option.mem_toList, Option.mem_toList] at h
    refine h.imp (fun h => ?_) (fun h => ⟨?_, h⟩)
    · unfold Brush.attributeFinding? at h
      simp only at h
      split at h
      · cases h
      · next hignored => exact fun hmarked => hignored (decide_eq_true hmarked)
    · unfold Brush.companionFinding? at h
      simp only at h
      split at h
      · next hcompanion =>
        rw [← occursIn_companion]
        simpa using hcompanion
      · split at h
        · cases h
        · obtain rfl := Option.some.inj h
          cases hfix

/-- A declaration that lacks something has a mendable report. -/
theorem exists_mem_reportsOn (hprop : Brush.companionEnding.isSuffixOf prop = false)
    (h : Lacks prop g x) : ∃ f ∈ Brush.reportsOn (g ++ x) m, f.autoFixable = true := by
  unfold Brush.reportsOn
  simp only [hstart, hpart, hprop, Bool.false_eq_true, if_false, List.mem_append, Option.mem_toList]
  rcases h with h | h
  · have hattribute : ∃ f, Brush.attributeFinding? (decide (Marked g x)) (lineOf (g ++ x) g.length) prop
        = some f ∧ f.autoFixable = true := by
      rw [decide_eq_false h]
      exact ⟨_, rfl, rfl⟩
    exact hattribute.imp fun f hf => ⟨.inl hf.1, hf.2⟩
  · rw [← occursIn_companion, Bool.not_eq_true] at h
    have hcompanion : ∃ f, Brush.companionFinding? (g ++ x) (lineOf (g ++ x) g.length) prop
        = some f ∧ f.autoFixable = true := by
      unfold Brush.companionFinding?
      simp only [h]
      exact ⟨_, rfl, rfl⟩
    exact hcompanion.imp fun f hf => ⟨.inr hf.1, hf.2⟩

end Match

/-! ## The properties to mend -/

/-- What is asked for first comes first: in a list without repetitions that is read off from another one,
every element has a source in front of all sources of the elements behind it. -/
theorem pairwise_eraseDups_flatMap {α β : Type} [BEq β] [LawfulBEq β] {R : α → α → Prop} {f : α → List β}
    {l : List α} (h : l.Pairwise R) :
    (l.flatMap f).eraseDups.Pairwise
      (fun b b' => ∃ a ∈ l, b ∈ f a ∧ ∀ a' ∈ l, b' ∈ f a' → a' = a ∨ R a a') := by
  -- from the right: what the last source brings anew comes behind all that was there
  induction l using List.reverseRecOn with
  | nil => exact .nil
  | append_singleton l last ih =>
    obtain ⟨hl, -, hlast⟩ := List.pairwise_append.mp h
    have hnew : ∀ {b}, b ∈ ((f last).removeAll (l.flatMap f)).eraseDups →
        b ∈ f last ∧ ∀ a ∈ l, b ∉ f a := by
      intro b hb
      simpa [List.removeAll] using hb
    rw [List.flatMap_append, List.flatMap_singleton, List.eraseDups_append, List.pairwise_append]
    refine ⟨(ih hl).imp ?_, List.pairwise_of_forall_mem_list fun b hb b' hb' => ?_, ?_⟩
    · rintro b b' ⟨a, ha, hb, hle⟩
      refine ⟨a, List.mem_append_left _ ha, hb, fun a' ha' hb' => ?_⟩
      rcases List.mem_append.mp ha' with ha' | ha'
      · exact hle a' ha' hb'
      · exact .inr (hlast a ha a' ha')
    · refine ⟨last, by simp, (hnew hb).1, fun a ha hmem => .inl ?_⟩
      rcases List.mem_append.mp ha with ha | ha
      · exact absurd hmem ((hnew hb').2 a ha)
      · exact List.mem_singleton.mp ha
    · intro b hb b' hb'
      obtain ⟨a, ha, hmem⟩ := List.mem_flatMap.mp (List.mem_eraseDups.mp hb)
      refine ⟨a, List.mem_append_left _ ha, hmem, fun a' ha' hmem' => .inr ?_⟩
      rcases List.mem_append.mp ha' with ha' | ha'
      · exact absurd hmem' ((hnew hb').2 a' ha')
      · exact hlast a ha a' ha'

/-- The names that the mendable reports on a declaration give. -/
def asked (masked : Text) (m : Match) : List String :=
  ((Brush.reportsOn masked m).filter (fun f => f.autoFixable)).filterMap
    (fun f => f.subject.filter (fun s => !s.isEmpty))

theorem subjects_eq {code : Text} {issues : List Issue}
    (h : Rule.brush.check (ofCode code) = .ok issues) :
    subjects issues
      = ((Brush.declaration.findAll (mask code)).flatMap (asked (mask code))).eraseDups := by
  obtain rfl := Except.ok.inj ((Brush.check_eq (ofCode code)).symm.trans h)
  unfold subjects asked Brush.reports
  rw [List.filter_map, List.filterMap_map, List.filter_flatMap, List.filterMap_flatMap]
  simp only [Function.comp_def, beq_self_eq_true, Bool.true_and]
  rfl

/-- Every declaration that lacks something gives its name. -/
theorem mem_asked {prop g x : Text} {m : Match} (hprop : IsName prop) (hstart : m.start = g.length)
    (hpart : m.part .name (g ++ x) = prop) {s : String} :
    s ∈ asked (g ++ x) m
      ↔ s = String.ofList prop ∧ Brush.companionEnding.isSuffixOf prop = false ∧ Lacks prop g x := by
  have hempty : String.ofList prop ≠ "" := by
    intro hnil
    exact hprop.1 (by simpa using congrArg String.toList hnil)
  unfold asked
  simp only [List.mem_filterMap, List.mem_filter]
  constructor
  · rintro ⟨f, ⟨hf, hfix⟩, hs⟩
    rw [subject_reportsOn hf, hpart] at hs
    obtain ⟨rfl, -⟩ : String.ofList prop = s ∧ ¬ s = "" := by simpa using hs
    obtain ⟨hsuffix, hlacks⟩ := lacks_of_mem_reportsOn hstart hpart hf hfix
    exact ⟨rfl, hsuffix, hlacks.imp_right And.left⟩
  · rintro ⟨rfl, hsuffix, hlacks⟩
    obtain ⟨f, hf, hfix⟩ := exists_mem_reportsOn hstart hpart hsuffix hlacks
    refine ⟨f, ⟨hf, hfix⟩, ?_⟩
    rw [subject_reportsOn hf, hpart]
    simp [hempty]

section Subjects

variable {code : Text} {issues : List Issue} (hissues : Rule.brush.check (ofCode code) = .ok issues)

include hissues

/-- An issue of the rule is a report on a declaration. -/
theorem exists_stands_of_mem {i : Issue} (hi : i ∈ issues) :
    ∃ m prop g x, mask code = g ++ x ∧ IsName prop ∧ Stands "Brush".toList prop x ∧ m.start = g.length
      ∧ m.part .name (g ++ x) = prop ∧ i.toFinding ∈ Brush.reportsOn (g ++ x) m := by
  obtain rfl := Except.ok.inj ((Brush.check_eq (ofCode code)).symm.trans hissues)
  obtain ⟨f, hf, rfl⟩ := List.mem_map.mp hi
  obtain ⟨m, hm, hfm⟩ := List.mem_flatMap.mp hf
  obtain ⟨prop, g, x, hmask, hname, hstands, hstart, hpart⟩ := exists_stands hm
  rw [hmask] at hfm hpart
  exact ⟨m, prop, g, x, hmask, hname, hstands, hstart, hpart, hfm⟩

/-- **The properties to mend** are those that lack something. -/
theorem mem_subjects {prop : Text} :
    prop ∈ (subjects issues).map String.toList
      ↔ IsProperty prop ∧ ∃ g x, mask code = g ++ x ∧ Stands "Brush".toList prop x ∧ Lacks prop g x := by
  rw [subjects_eq hissues]
  simp only [List.mem_map, List.mem_eraseDups, List.mem_flatMap]
  constructor
  · rintro ⟨s, ⟨m, hm, hs⟩, rfl⟩
    obtain ⟨prop, g, x, hmask, hprop, hstands, hstart, hpart⟩ := exists_stands hm
    rw [hmask] at hs hpart
    obtain ⟨rfl, hsuffix, hlacks⟩ := (mem_asked hprop hstart hpart).mp hs
    rw [String.toList_ofList]
    exact ⟨⟨hprop, hsuffix⟩, g, x, hmask, hstands, hlacks⟩
  · rintro ⟨⟨hprop, hsuffix⟩, g, x, hmask, hstands, hlacks⟩
    obtain ⟨m, hm, hstart, hpart⟩ := exists_match (g := g) hprop hstands
    rw [hmask]
    exact ⟨_, ⟨m, hm, (mem_asked hprop hstart hpart).mpr ⟨rfl, hsuffix, hlacks⟩⟩,
      String.toList_ofList⟩

/-- **The properties to mend stand in the order of the text:** one of the declarations of each lacks something
in front of everything that a later one lacks. -/
theorem ordered_lacks :
    ((subjects issues).map String.toList).Pairwise (fun p q => ∃ g x, mask code = g ++ x
      ∧ Stands "Brush".toList p x ∧ Lacks p g x ∧ ∀ {g' x'}, mask code = g' ++ x' →
        Stands "Brush".toList q x' → Lacks q g' x' → g.length ≤ g'.length) := by
  rw [List.pairwise_map]
  have hpairwise := pairwise_eraseDups_flatMap (f := asked (mask code)) (pairwise_start_findAll (mask code))
  rw [← subjects_eq hissues] at hpairwise
  refine hpairwise.imp_of_mem ?_
  rintro s s' - hs' ⟨m, hm, hs, hle⟩
  obtain ⟨prop, g, x, hmask, hprop, hstands, hstart, hpart⟩ := exists_stands hm
  rw [hmask] at hs hpart
  obtain ⟨rfl, -, hlacks⟩ := (mem_asked hprop hstart hpart).mp hs
  have hname : (String.ofList prop).toList = prop := String.toList_ofList
  refine ⟨g, x, hmask, by rwa [hname], by rwa [hname], ?_⟩
  intro g' x' hmask' hstands' hlacks'
  obtain ⟨⟨hname', hsuffix'⟩, -⟩ := (mem_subjects hissues).mp (List.mem_map_of_mem hs')
  obtain ⟨m', hm', hstart', hpart'⟩ := exists_match (g := g') hname' hstands'
  rw [← hmask'] at hm'
  have hs'' : s' ∈ asked (mask code) m' := by
    rw [hmask']
    exact (mem_asked hname' hstart' hpart').mpr ⟨String.ofList_toList.symm, hsuffix', hlacks'⟩
  rcases hle m' hm' hs'' with rfl | hle
  · omega
  · omega

/-- So nothing that a property lacks stands in front of the first declaration of an earlier one. -/
theorem ordered_subjects :
    ((subjects issues).map String.toList).Pairwise (fun p q => ∀ {g x g' x'}, mask code = g ++ x →
      First p g x → mask code = g' ++ x' → Stands "Brush".toList q x' → Lacks q g' x' →
      g.length ≤ g'.length) := by
  refine (ordered_lacks hissues).imp ?_
  rintro p q ⟨g₁, x₁, hmask₁, hstands₁, -, hle⟩ g x g' x' hmask hfirst hmask' hstands hlacks
  exact (hfirst.le g₁ x₁ (hmask₁.symm.trans hmask) hstands₁).trans (hle hmask' hstands hlacks)

end Subjects

end Repair

end ChartLint
