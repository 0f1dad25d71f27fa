import ChartLint.Proofs.Repair.Demand

/-!
# Complete repairs

After a repair the brush rule has nothing left that could be mended, but for the companions of properties
that are never closed (`run_complete`), and the same repair once more changes nothing. This holds of scripts
in which the repair sees the properties as the rule does (`Tidy`): it works on the first declaration of a
name only, and it puts the attribute at the start of a line, where the rule does not look for it if a comment
ends on that line.
-/

namespace ChartLint.Repair

open Pattern Text Source Rule Lexing

/-! ## Tidy scripts -/

/-- **A tidy script:** every property that the rule reads has an attribute that stays in sight when
the companions are put in, or it is to be mended and can be (`Pending`).

The clauses leave out what the repair does not get right: a comment that ends on the line of a
property and takes the attribute in, a second declaration of a name, an attribute that a companion
cuts off from its property or from one that borrows it, and a head that an attribute cuts in two.
There the repair slips, although all braces are closed (`slips_untidyScripts`). -/
def Tidy (issues : List Issue) (code : Text) : Prop :=
  let masked := mask code
  let props := (subjects issues).map String.toList
  ∀ m ∈ Brush.declaration.findAll masked,
    let prop := m.part .name masked
    let g := masked.take m.start
    let x := masked.drop m.start
    Brush.companionEnding.isSuffixOf prop = false →
      Own (Spot props masked) g x ∨ (prop ∈ props ∧ Pending code prop g x)

/-! ### Tidiness can be computed -/

instance (props : List Text) (masked : Text) : DecidablePred (Spot props masked) :=
  fun offset => inferInstanceAs (Decidable (∃ prop ∈ props, companionSpot? masked prop = some offset))

/-- An attribute of its own, tested at the finitely many cuts of the text. -/
theorem own_iff {spot : Nat → Prop} {g x : Text} :
    Own spot g x ↔ ∀ i ≤ g.length, (i = 0 ∨ (i < g.length ∧ spot (i + 1))) →
      ∀ j ≤ x.length, (j = x.length ∨ (0 < j ∧ spot (g.length + j))) →
        Marked (g.drop i) (x.take j) := by
  constructor
  · intro h i hi hl j hj hr
    refine h (List.take_append_drop i g).symm (List.take_append_drop j x).symm ?_ ?_
    · refine hl.imp (fun hzero => by rw [hzero, List.take_zero]) fun ⟨hlt, hspot⟩ => ⟨?_, ?_⟩
      · simpa using hlt
      · rwa [List.length_take_of_le hi]
    · refine hr.imp (fun hend => by rw [hend, List.drop_length]) fun ⟨hpos, hspot⟩ => ⟨?_, ?_⟩
      · rw [← List.length_pos_iff, List.length_take_of_le hj]
        exact hpos
      · rwa [List.length_take_of_le hj]
  · rintro h y k u z rfl rfl hl hr
    have hmarked := h y.length (by simp) ?_ u.length (by simp) ?_
    · rwa [List.drop_left, List.take_left] at hmarked
    · refine hl.imp (fun hnil => by rw [hnil, List.length_nil]) fun ⟨hne, hspot⟩ => ⟨?_, hspot⟩
      have hpos := List.length_pos_iff.mpr hne
      rw [List.length_append]
      omega
    · refine hr.imp (fun hnil => by rw [hnil, List.append_nil]) fun ⟨hne, hspot⟩ => ⟨?_, hspot⟩
      exact List.length_pos_iff.mpr hne

instance (spot : Nat → Prop) [DecidablePred spot] (g x : Text) : Decidable (Own spot g x) :=
  decidable_of_iff _ own_iff.symm

/-- A first declaration, tested by the search for it. -/
theorem first_iff {prop g x : Text} :
    First prop g x ↔ (declaration? (g ++ x) prop).map (fun m => m.start) = some g.length := by
  rw [Option.map_eq_some_iff]
  constructor
  · intro h
    obtain ⟨m, hm⟩ := exists_declaration? (g := g) h.stands
    obtain ⟨g', w, r, heq, -, hfirst, hstart, -⟩ := first_of_declaration? hm
    obtain ⟨rfl, -⟩ := h.unique hfirst heq
    exact ⟨m, hm, hstart⟩
  · rintro ⟨m, hm, hstart⟩
    obtain ⟨g', w, r, heq, -, hfirst, hstart', -⟩ := first_of_declaration? hm
    obtain ⟨rfl, rfl⟩ := List.append_inj heq (hstart.symm.trans hstart')
    exact hfirst

instance (prop g x : Text) : Decidable (First prop g x) :=
  decidable_of_iff _ first_iff.symm

instance (x : Text) : Decidable (Bare x) :=
  decidable_of_iff (¬ bracketed.occursIn (lineBack x) = true) (not_congr occursIn_iff)

/-- A clear place, tested on the declarations that are found. -/
theorem clear_iff {t : Text} {offset : Nat} :
    Clear t offset ↔ ∀ m ∈ anyHead.findAll t, m.start < offset → m.stop ≤ offset := by
  constructor
  · intro h m hm hlt
    obtain ⟨g, y, x, rfl, hmatch⟩ := found_of_mem_findAll hm
    obtain ⟨w, r, rfl, hacc, hstart, hstop⟩ := accepts_of_matchAt? hmatch
    obtain ⟨type, htype, name, hname, hhead⟩ := accepts_anyHead.mp hacc
    rw [hstart] at hlt
    rw [hstop]
    exact h htype hname hhead rfl hlt
  · rintro h type name g w r htype hname hhead rfl hlt
    obtain ⟨m, hm, hmatch⟩ := exists_mem_findAll (g := g) ofHeads_anyHead
      ⟨w, r, rfl, accepts_anyHead.mpr ⟨type, htype, name, hname, hhead⟩⟩
    obtain ⟨w', r', heq, hacc, hstart, hstop⟩ := accepts_of_matchAt? hmatch
    obtain ⟨type', htype', name', hname', hhead'⟩ := accepts_anyHead.mp hacc
    have hle := h m hm (by rwa [hstart])
    have hpos := hhead.length_pos
    have hpos' := hhead'.length_pos
    have hplaces : g ++ (w ++ r) = g ++ (w' ++ r') := by rw [heq]
    rcases IsHead.apart (isName_of_mem_headTypes htype) hname (isName_of_mem_headTypes htype') hname'
      hhead hhead' hplaces with hapart | hapart | ⟨-, rfl, -⟩
    · omega
    · omega
    · rwa [hstop] at hle

instance (t : Text) (offset : Nat) : Decidable (Clear t offset) :=
  decidable_of_iff _ clear_iff.symm

instance (code g : Text) : Decidable (Open code g) :=
  decidable_of_iff (Outside code (lineStart g) ∧ Clear (mask code) (lineStart g))
    ⟨fun h => ⟨h.1, h.2⟩, fun h => ⟨h.outside, h.clear⟩⟩

instance (code prop g x : Text) : Decidable (Pending code prop g x) :=
  decidable_of_iff (First prop g x ∧ Bare x ∧ Open code g)
    ⟨fun h => ⟨h.1, h.2.1, h.2.2⟩, fun h => ⟨h.first, h.bare, h.line⟩⟩

instance (issues : List Issue) (code : Text) : Decidable (Tidy issues code) := by
  unfold Tidy
  infer_instance

/-! ### Where tidiness is needed -/

/-- All properties are closed, and still the repair leaves something that it could have mended. -/
def Slips (issues : List Issue) (code : Text) : Prop :=
  (∀ m ∈ Brush.declaration.findAll (mask code), matchingBrace (mask code) (m.stop - 1) < code.length)
    ∧ ∃ after, Rule.brush.check (ofCode (run issues code)) = .ok after
      ∧ ∃ i ∈ after, i.autoFixable = true

/-- For each clause of tidiness a script that fails this clause and no other one. -/
def untidyScripts : List Text :=
  -- the start of the line is in a comment, which takes the attribute in
  ["/*\n*/ public Brush A \x7b\x7d".toList,
  -- the second declaration of the name never gets its attribute
    "public Brush A \x7b\x7d\npublic Brush A \x7b\x7d".toList,
  -- the companion comes between the property and the attribute behind it
    "public Brush A \x7b\x7d [XmlIgnore] int b;".toList,
  -- the companion of the first property comes between its attribute and the second property
    ("[XmlIgnore] public Brush A \x7b\x7d public Brush B \x7b\x7d\n"
      ++ "public string BSerializable \x7b\x7d").toList,
  -- the attribute of the second property comes into the head of the companion of the first one
    ("[XmlIgnore] public Brush A \x7b\x7d\n;\npublic string ASerializable\n\x7b\x7d "
      ++ "public Brush B \x7b\x7d").toList]

/-- **Tidiness is needed:** the scripts are closed and untidy, and the repair of each of them slips.
-/
theorem slips_untidyScripts : ∀ code ∈ untidyScripts, ∃ issues,
    Rule.brush.check (ofCode code) = .ok issues ∧ ¬ Tidy issues code ∧ Slips issues code := by
  have hdecided : ∀ code ∈ untidyScripts,
      let issues := (Brush.reports (mask code)).map (fun f => { f with check := Rule.brush.name })
      ¬ Tidy issues code
        ∧ (∀ m ∈ Brush.declaration.findAll (mask code),
          matchingBrace (mask code) (m.stop - 1) < code.length)
        ∧ ∃ f ∈ Brush.reports (mask (run issues code)), f.autoFixable = true := by
    decide +kernel
  intro code hcode
  obtain ⟨huntidy, hclosed, f, hf, hfix⟩ := hdecided code hcode
  exact ⟨_, Brush.check_eq _, huntidy, hclosed, _, Brush.check_eq _, _, List.mem_map_of_mem hf, hfix⟩

/-! ## The repair -/

section Run

variable {code : Text} {issues : List Issue} (hissues : Rule.brush.check (ofCode code) = .ok issues)

include hissues

/-- The invariant holds at the start. -/
theorem progress_start (htidy : Tidy issues code) :
    Progress (mask code) ((subjects issues).map String.toList) ((subjects issues).map String.toList)
      code where
  properties p hp := ((mem_subjects hissues).mp hp).1
  unclosed _ h := h
  settled := by
    intro q hq hnot
    cases hspot : companionSpot? (mask code) q with
    | none => rfl
    | some o =>
      obtain ⟨hcompanion, g, w, body, z, value, hmask, hfirst, -⟩ := (companionSpot?_eq_some hq.1).mp hspot
      rw [hmask] at hcompanion
      exact absurd ((mem_subjects hissues).mpr ⟨hq, g, _, hmask, hfirst.stands, .inr hcompanion⟩) hnot
  ordered := by
    refine (ordered_subjects hissues).imp_of_mem ?_
    rintro p q - hq hordered g x o hmask hfirst hspot
    have hq' := ((mem_subjects hissues).mp hq).1.1
    obtain ⟨hcompanion, g', w, body, z, value, hmask', hfirst', -⟩ := (companionSpot?_eq_some hq').mp hspot
    rw [hmask'] at hcompanion hspot
    exact Nat.lt_of_le_of_lt (hordered hmask hfirst hmask' hfirst'.stands (.inr hcompanion))
      (hfirst'.lt_companionSpot? hq' hspot)
  marked := by
    intro q g x hq hmask hstands
    obtain ⟨m, hm, hstart, hpart⟩ := exists_match (g := g) hq.1 hstands
    rw [← hmask] at hm
    have hproperty := htidy m hm
    rw [hstart, hmask, hpart, List.take_left, List.drop_left, ← hmask] at hproperty
    exact hproperty hq.2

omit hissues in
/-- A repair changes nothing once it is done. -/
theorem run_eq_of_progress {origin : Text} (h : Progress origin [] [] code)
    (hprops : ∀ prop ∈ (subjects issues).map String.toList, IsProperty prop) : run issues code = code := by
  have hmend : ∀ prop ∈ subjects issues, ∀ newline, mend newline code prop = code := by
    intro prop hmem newline
    have hprop := hprops _ (List.mem_map_of_mem hmem)
    have hattribute : addAttribute newline code prop.toList = code := by
      cases hm : declaration? (mask code) prop.toList with
      | none => exact addAttribute_of_none newline hm
      | some m =>
        obtain ⟨g, w, r, hmask, -, hfirst, -⟩ := first_of_declaration? hm
        rcases addAttribute_eq newline hmask hprop.1 hfirst with ⟨-, heq⟩ | ⟨hunmarked, -⟩
        · exact heq
        · rcases h.marked hprop hmask hfirst.stands with hown | ⟨hmem, -⟩
          · exact absurd hown.marked hunmarked
          · cases hmem
    rw [mend, hattribute]
    rcases addCompanion_eq newline code prop.toList with ⟨-, heq⟩ | ⟨o, -, hspot, -⟩
    · exact heq
    · rw [h.settled hprop List.not_mem_nil] at hspot
      cases hspot
  rw [run_eq]
  refine List.foldlRecOn (motive := fun text => text = code) (subjects issues) _ rfl ?_
  rintro _ rfl prop hprop
  exact hmend prop hprop _

/-- What the rule can still mend when a repair is done is a companion of a property that is never
closed. -/
theorem unclosed_of_progress {origin : Text} (h : Progress origin [] [] code) {i : Issue}
    (hi : i ∈ issues) (hfix : i.autoFixable = true) :
    ∃ line prop, Brush.companionFinding? (mask code) line prop = some i.toFinding
      ∧ Unclosed origin prop := by
  obtain ⟨m, prop, g, x, hmask, hname, hstands, hstart, hpart, hfm⟩ := exists_stands_of_mem hissues hi
  obtain ⟨hsuffix, hlacks⟩ := lacks_of_mem_reportsOn hstart hpart hfm hfix
  have hprop : IsProperty prop := ⟨hname, hsuffix⟩
  obtain ⟨hcompanion, hfinding⟩ := hlacks.resolve_left fun hunmarked => by
    rcases h.marked hprop hmask hstands with hown | ⟨hmem, -⟩
    · exact hunmarked hown.marked
    · cases hmem
  rw [← hmask] at hfinding hcompanion
  refine ⟨_, prop, hfinding, h.unclosed hprop ?_⟩
  obtain ⟨m', hm'⟩ := exists_declaration? (g := g) hstands
  rw [← hmask] at hm'
  rw [← occursIn_companion, Bool.not_eq_true] at hcompanion
  exact unclosed_of_companionSpot? (h.settled hprop List.not_mem_nil) hcompanion hm'

/-- **A repair is complete:** in a tidy script it leaves nothing that it could mend, but for the
companions of properties that are never closed, and the same repair changes nothing any more. -/
theorem run_complete (htidy : Tidy issues code) :
    run issues (run issues code) = run issues code
      ∧ ∃ after, Rule.brush.check (ofCode (run issues code)) = .ok after
        ∧ ∀ i ∈ after, i.autoFixable = true →
          ∃ line prop, Brush.companionFinding? (mask (run issues code)) line prop = some i.toFinding
            ∧ Unclosed (mask code) prop := by
  have hdone : Progress (mask code) [] [] (run issues code) := by
    rw [run_eq]
    exact progress_foldl (isNewline_lineBreak code) (progress_start hissues htidy)
  have hafter := Brush.check_eq (ofCode (run issues code))
  refine ⟨run_eq_of_progress hdone fun prop hprop => ((mem_subjects hissues).mp hprop).1, _, hafter, ?_⟩
  intro i hi hfix
  exact unclosed_of_progress hafter hdone hi hfix

end Run

/-- A script with a property that has its attribute above it, another one on the same line, and one
that is never closed. -/
def threeBrushes : Text :=
  ("[XmlIgnore]\npublic Brush A \x7b get; set; \x7d public Brush B \x7b get; set; \x7d\n"
    ++ "public Brush C \x7b").toList

/-- A run over three properties, of which the one that is never closed is left without a companion. -/
theorem run_complete_threeBrushes :
    ∃ issues, Rule.brush.check (ofCode threeBrushes) = .ok issues ∧ Tidy issues threeBrushes
      ∧ run issues (run issues threeBrushes) = run issues threeBrushes
      ∧ ∃ after, Rule.brush.check (ofCode (run issues threeBrushes)) = .ok after
        ∧ ∀ i ∈ after, i.autoFixable = true →
          ∃ line prop,
            Brush.companionFinding? (mask (run issues threeBrushes)) line prop = some i.toFinding
              ∧ Unclosed (mask threeBrushes) prop := by
  obtain ⟨issues, hissues, htidy⟩ :
      ∃ issues, Rule.brush.check (ofCode threeBrushes) = .ok issues ∧ Tidy issues threeBrushes :=
    ⟨_, Brush.check_eq (ofCode threeBrushes), by decide +kernel⟩
  exact ⟨issues, hissues, htidy, run_complete hissues htidy⟩

/-- The companion of a property that is never closed stays missing. -/
theorem autoFixable_run_unclosed :
    let code := "public Brush X \x7b".toList
    ∃ issues after, Rule.brush.check (ofCode code) = .ok issues
      ∧ Rule.brush.check (ofCode (run issues code)) = .ok after
      ∧ ∃ i ∈ after, i.autoFixable = true := by
  refine ⟨_, _, Brush.check_eq _, Brush.check_eq _, ?_⟩
  decide +kernel

end ChartLint.Repair
