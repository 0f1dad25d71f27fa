import ChartLint.Proofs.Modernize.Replacement

/-!
# Constructs of the previous release

The replacements of the previous release's constructs do not get in each other's way, and no other
pass sees them. The patterns that decide what the other passes do are listed (`observed`). None of
them touches the old text of a replacement or the new one, which is computed, pair by pair; so what
they find in a script is the same before and after (`occurs_apply`). Once a construct is replaced it
is gone, and no other replacement brings it back (`not_occurs_applyAll`).
-/

namespace ChartLint.Modernize

open Pattern Lexing Text Source

/-! ## What the other passes look at -/

/-- The namespaces that a script may have to import. -/
def importable : List String :=
  commonUsings ++ ["System.Xml.Serialization", "NinjaTrader.Gui", "System.Collections.Generic",
    "System.Linq"]

theorem mem_importable {masked : Text} {path : String} (h : path ∈ requiredUsings masked) :
    path ∈ importable := by
  simp only [requiredUsings, List.mem_append] at h
  simp only [importable, List.mem_append]
  rcases h with ((h | h) | h) | h
  · exact .inl h
  all_goals
    split at h
    · refine .inr ?_
      simp only [List.mem_cons, List.not_mem_nil, or_false] at h ⊢
      tauto
    · cases h

/-- The patterns that decide the kind of a script and the imports it needs. -/
def observed : List Pattern :=
  [ScriptKind.strategyBase, brushType, listType, queryCall]
    ++ importable.map (fun path => usingDirective path.toList)

theorem usingDirective_mem_observed {path : String} (h : path ∈ importable) :
    usingDirective path.toList ∈ observed := by
  exact List.mem_append_right _ (List.mem_map_of_mem h)

/-- The letters with which the names of the drawn shapes start. -/
def shapeLetters : List Char :=
  ['A', 'T', 'L', 'R', 'D', 'S', 'H', 'V']

/-- How the texts start that the passes take out of a script or put into it. -/
def editWords : List Text :=
  ["using".toList, "Draw.".toList, "Calculate = Calculate.".toList, "CalculateOnBarClose".toList]
    ++ shapeLetters.map (fun c => "Draw".toList ++ [c])

/-- What is computed about the observed patterns, all of it at once. -/
theorem observed_checked : ∀ q ∈ observed, (q.isLocal = true ∧ q.mayBeEmpty = false)
    ∧ (∀ n ∈ blankCodes, q.mayEnd (Char.ofNat n) = false)
    ∧ ∀ v ∈ editWords, q.entryFree v = true := by
  decide +kernel

/-- The observed patterns are local, are not empty and do not end with a blank. -/
theorem observed_local {q : Pattern} (hq : q ∈ observed) :
    q.isLocal = true ∧ q.mayBeEmpty = false ∧ ∀ c, isBlank c = true → q.mayEnd c = false := by
  obtain ⟨⟨hlocal, hempty⟩, hend, -⟩ := observed_checked q hq
  exact ⟨hlocal, hempty, fun c hc => forall_of_isBlank (P := fun c => q.mayEnd c = false) hend hc⟩

/-- No observed pattern enters a text that starts like one of the edits. -/
theorem observed_noEntry {q : Pattern} (hq : q ∈ observed) {v : Text} (hv : v ∈ editWords)
    (v' : Text) : q.NoEntry (v ++ v') :=
  (noEntry_of_entryFree ((observed_checked q hq).2.2 v hv)).append v'

/-- The observed patterns, and the declaration of a namespace. -/
def started : List Pattern :=
  namespaceDeclaration :: observed

/-- What the patterns start with: the keyword of a directive or a declaration, or all of it. -/
def startHeads : List Pattern :=
  [.edge ++ "namespace", .edge ++ "using", ScriptKind.strategyBase, brushType, listType, queryCall]

theorem noStart_of_startHeads {q : Pattern} (hq : q ∈ started) {v : Text}
    (hv : ∀ p ∈ startHeads, p.startFree v = true) : q.NoStart v := by
  simp only [started, observed, List.mem_cons, List.mem_append, List.mem_map, List.not_mem_nil,
    or_false] at hq
  have hhead : ∀ p ∈ startHeads, p.NoStart v := fun p hp => noStart_of_startFree (hv p hp)
  rcases hq with rfl | (rfl | rfl | rfl | rfl) | ⟨path, -, rfl⟩
  · exact ((hhead _ (by simp [startHeads])).followedBy _).followedBy _
  · exact hhead _ (by simp [startHeads])
  · exact hhead _ (by simp [startHeads])
  · exact hhead _ (by simp [startHeads])
  · exact hhead _ (by simp [startHeads])
  · exact ((((hhead (.edge ++ "using") (by simp [startHeads])).followedBy _).followedBy _).followedBy
      _).followedBy _

theorem started_blank {q : Pattern} (hq : q ∈ started) {s : Text}
    (hs : ∀ c ∈ s, isBlank c = true) : q.NoStart s := by
  have hcheck : ∀ p ∈ startHeads, ∀ n ∈ blankCodes, p.startFree [Char.ofNat n] = true := by
    decide +kernel
  refine noStart_of_forall (fun c hc => noStart_of_startHeads hq (fun p hp => ?_))
  exact forall_of_isBlank (P := fun c => p.startFree [c] = true) (hcheck p hp) (hs c hc)

/-! ## The replacements -/

/-- The replacements of the previous release's constructs, in their order. -/
def legacy : List Replacement :=
  drawnShapes.map drawingReplacement
    ++ calculateFlags.map (fun (flag, mode) => calculateReplacement flag mode)

/-- A drawing call of the previous release, its parenthesis included. -/
def drawingCall (shape : String) : Pattern :=
  unqualified ++ "Draw" ++ shape ++ (blanks ++ "(")

theorem startsAt_legacyDrawing (shape : String) (x : Option Char) (t : Text) :
    (legacyDrawing shape).StartsAt x t ↔ (drawingCall shape).StartsAt x t :=
  startsAt_append_ahead x t

/-- The parts of a drawing call. -/
def drawingParts (shape : String) : List Part :=
  [.ink "Draw".toList, .ink shape.toList, .space false, .ink ['(']]

theorem accepts_drawingCall {shape : String} {x : Option Char} {w r : Text} :
    (drawingCall shape).Accepts x w r ↔ x.any isPathChar = false ∧ Spells (drawingParts shape) w := by
  have hcall : (drawingCall shape).Accepts x w r
      ↔ (unqualified ++ spelled (drawingParts shape)).Accepts x w r := by
    simp only [drawingCall, accepts_append_assoc]
    exact Iff.rfl
  rw [hcall, accepts_append]
  constructor
  · rintro ⟨_, w', rfl, ⟨rfl, hfront⟩, hspells⟩
    exact ⟨hfront, accepts_spelled.mp hspells⟩
  · rintro ⟨hfront, hspells⟩
    exact ⟨[], w, rfl, ⟨rfl, hfront⟩, accepts_spelled.mpr hspells⟩

theorem eq_of_accepts_legacyDrawing {shape : String} {x : Option Char} {w r : Text}
    (h : (legacyDrawing shape).Accepts x w r) : w = "Draw".toList ++ shape.toList := by
  simp only [legacyDrawing, accepts_append, accepts_text, unqualified] at h
  obtain ⟨_, _, rfl, ⟨_, _, rfl, ⟨_, _, rfl, ⟨rfl, -⟩, rfl⟩, rfl⟩, rfl, -⟩ := h
  simp

/-- The parts of the assignment of the flag. -/
def calculateParts (flag : String) : List Part :=
  [.ink "CalculateOnBarClose".toList, .space false, .ink ['='], .space false, .ink flag.toList,
    .space false, .ink [';']]

theorem spells_of_accepts_legacyCalculate {flag : String} {x : Option Char} {w r : Text}
    (h : (legacyCalculate flag).Accepts x w r) : Spells (calculateParts flag) w := by
  simp only [legacyCalculate, accepts_append_assoc] at h
  have hspelled : (Pattern.edge ++ spelled (calculateParts flag)).Accepts x w r := h
  exact (accepts_edge_spelled.mp hspelled).2

theorem mem_legacy {rep : Replacement} (h : rep ∈ legacy) :
    (∃ shape ∈ drawnShapes, rep = drawingReplacement shape)
      ∨ ∃ flag ∈ calculateFlags, rep = calculateReplacement flag.1 flag.2 := by
  simp only [legacy, List.mem_append, List.mem_map] at h
  rcases h with ⟨shape, hshape, rfl⟩ | ⟨flag, hflag, rfl⟩
  · exact .inl ⟨shape, hshape, rfl⟩
  · exact .inr ⟨flag, hflag, rfl⟩

theorem new_drawingReplacement (shape : String) :
    (drawingReplacement shape).new.toList = "Draw.".toList ++ shape.toList := by
  simp [drawingReplacement, toString]

theorem new_calculateReplacement (flag mode : String) :
    (calculateReplacement flag mode).new.toList
      = "Calculate = Calculate.".toList ++ (mode.toList ++ [';']) := by
  simp [calculateReplacement, toString]

/-- What does not enter the two ways in which new texts start enters no new text. -/
theorem noEntry_new {q : Pattern} (hdraw : ∀ v, q.NoEntry ("Draw.".toList ++ v))
    (hcalc : ∀ v, q.NoEntry ("Calculate = Calculate.".toList ++ v)) {rep : Replacement}
    (h : rep ∈ legacy) : q.NoEntry rep.new.toList := by
  rcases mem_legacy h with ⟨shape, -, rfl⟩ | ⟨flag, -, rfl⟩
  · rw [new_drawingReplacement]
    exact hdraw _
  · rw [new_calculateReplacement]
    exact hcalc _

/-- What is computed about the names of the drawn shapes, all of it at once: they start with a known
letter, open nothing, and end visibly; and no pattern starts in a drawing call, old or new. -/
theorem drawnShapes_checked : ∀ shape ∈ drawnShapes,
    (shape.toList.head?.any (shapeLetters.contains ·) = true ∧ shape.toList.all isInert = true
      ∧ shape.toList.getLast?.any isVisible = true)
    ∧ (∀ p ∈ startHeads, p.startFree ("Draw".toList ++ shape.toList) = true
      ∧ p.startFree ("Draw.".toList ++ shape.toList) = true)
    ∧ (unqualified ++ "Draw").startFree shape.toList = true := by
  decide +kernel

/-- The same for the modes that the flag stands for. -/
theorem calculateFlags_checked : ∀ flag ∈ calculateFlags,
    flag.2.toList.all isInert = true
    ∧ (∀ p ∈ startHeads,
      p.startFree ("Calculate = Calculate.".toList ++ (flag.2.toList ++ [';'])) = true
      ∧ ∀ v ∈ ["CalculateOnBarClose".toList, ['='], flag.1.toList, [';']], p.startFree v = true)
    ∧ ∀ p ∈ [unqualified ++ "Draw", .edge ++ "CalculateOnBarClose"],
      p.startFree ("Calculate = Calculate.".toList ++ (flag.2.toList ++ [';'])) = true := by
  decide +kernel

theorem getLast?_shape {shape : String} (h : shape ∈ drawnShapes) (a : Text) :
    (a ++ shape.toList).getLast? = shape.toList.getLast? := by
  obtain ⟨⟨-, -, hlast⟩, -⟩ := drawnShapes_checked shape h
  obtain ⟨c, hc, -⟩ := (Option.any_eq_true _ _).mp hlast
  rw [List.getLast?_append, hc]
  rfl

/-- The new text of a replacement opens nothing and starts and ends visibly. -/
theorem legacy_new {rep : Replacement} (h : rep ∈ legacy) : rep.shape.mayBeEmpty = false
    ∧ (rep.new.toList.all isInert) = true ∧ rep.new.toList.head?.any isNeutral = true
    ∧ rep.new.toList.head?.any isVisible = true ∧ rep.new.toList.getLast?.any isVisible = true := by
  rcases mem_legacy h with ⟨shape, hshape, rfl⟩ | ⟨flag, hflag, rfl⟩
  · obtain ⟨⟨-, hinert, hlast⟩, -⟩ := drawnShapes_checked shape hshape
    rw [new_drawingReplacement, List.all_append, hinert, getLast?_shape hshape]
    exact ⟨rfl, by decide, rfl, rfl, hlast⟩
  · obtain ⟨hinert, -⟩ := calculateFlags_checked flag hflag
    rw [new_calculateReplacement, List.all_append, List.all_append, hinert, ← List.append_assoc,
      List.getLast?_concat]
    exact ⟨rfl, by decide, rfl, rfl, rfl⟩

/-- The old text of a replacement starts and ends as the new one does. -/
theorem legacy_ends {rep : Replacement} (h : rep ∈ legacy) {x : Option Char} {w r : Text}
    (hacc : rep.shape.Accepts x w r) :
    w.head? = rep.new.toList.head? ∧ w.getLast? = rep.new.toList.getLast? := by
  rcases mem_legacy h with ⟨shape, hshape, rfl⟩ | ⟨flag, hflag, rfl⟩
  · rw [eq_of_accepts_legacyDrawing hacc, new_drawingReplacement, getLast?_shape hshape,
      getLast?_shape hshape]
    exact ⟨rfl, rfl⟩
  · obtain ⟨w₁, rfl, s₁, _, rfl, -, -, w₂, rfl, s₂, _, rfl, -, -, w₃, rfl, s₃, _, rfl, -, -, w₄,
      rfl, rfl⟩ := spells_of_accepts_legacyCalculate hacc
    rw [new_calculateReplacement, ← List.append_assoc _ _ [';'], List.getLast?_concat]
    refine ⟨rfl, List.getLast?_eq_some_iff.mpr ?_⟩
    exact ⟨"CalculateOnBarClose".toList ++ (s₁ ++ (['='] ++ (s₂ ++ (flag.1.toList ++ s₃)))), by simp⟩

theorem fits_of_mem_legacy {rep : Replacement} (h : rep ∈ legacy) : rep.Fits := by
  obtain ⟨hempty, hinert, hneutral, hvisible, hvisible'⟩ := legacy_new h
  refine ⟨consumes_of_mayBeEmpty hempty, List.all_eq_true.mp hinert, ?_, ?_⟩
  · intro x w t hacc
    obtain ⟨c, hc, hcn⟩ := (Option.any_eq_true _ _).mp hneutral
    obtain ⟨d, hd, hdv⟩ := (Option.any_eq_true _ _).mp hvisible
    obtain rfl : d = c := Option.some.inj (hd.symm.trans hc)
    exact ⟨d, by rw [(legacy_ends h hacc).1, hc], hc, hdv, hcn⟩
  · intro x w t hacc
    obtain ⟨c, hc, hcv⟩ := (Option.any_eq_true _ _).mp hvisible'
    exact ⟨c, by rw [(legacy_ends h hacc).2, hc], hc, hcv⟩

/-! ## Nobody sees them -/

/-- None of the patterns starts in the new text of a replacement. -/
theorem started_new {rep : Replacement} (h : rep ∈ legacy) {q : Pattern} (hq : q ∈ started) :
    q.NoStart rep.new.toList := by
  refine noStart_of_startHeads hq (fun p hp => ?_)
  rcases mem_legacy h with ⟨shape, hshape, rfl⟩ | ⟨flag, hflag, rfl⟩
  · rw [new_drawingReplacement]
    exact ((drawnShapes_checked shape hshape).2.1 p hp).2
  · rw [new_calculateReplacement]
    exact ((calculateFlags_checked flag hflag).2.1 p hp).1

/-- No observed pattern enters the new text of a replacement. -/
theorem observed_new {rep : Replacement} (h : rep ∈ legacy) {q : Pattern} (hq : q ∈ observed) :
    q.NoEntry rep.new.toList :=
  noEntry_new (observed_noEntry hq (by simp [editWords])) (observed_noEntry hq (by simp [editWords])) h

/-- None of the patterns starts in the old text of a replacement. -/
theorem started_old {rep : Replacement} (h : rep ∈ legacy) {q : Pattern} (hq : q ∈ started)
    {x : Option Char} {w r : Text} (hacc : rep.shape.Accepts x w r) : q.NoStart w := by
  rcases mem_legacy h with ⟨shape, hshape, rfl⟩ | ⟨flag, hflag, rfl⟩
  · rw [eq_of_accepts_legacyDrawing hacc]
    exact noStart_of_startHeads hq (fun p hp => ((drawnShapes_checked shape hshape).2.1 p hp).1)
  · have hpart : ∀ v ∈ ["CalculateOnBarClose".toList, ['='], flag.1.toList, [';']], q.NoStart v :=
      fun v hv => noStart_of_startHeads hq
        (fun p hp => ((calculateFlags_checked flag hflag).2.1 p hp).2 v hv)
    obtain ⟨w₁, rfl, s₁, _, rfl, hs₁, -, w₂, rfl, s₂, _, rfl, hs₂, -, w₃, rfl, s₃, _, rfl, hs₃, -,
      w₄, rfl, rfl⟩ := spells_of_accepts_legacyCalculate hacc
    exact (hpart _ (by simp)).append ((started_blank hq hs₁).append
      ((hpart _ (by simp)).append ((started_blank hq hs₂).append
        ((hpart _ (by simp)).append ((started_blank hq hs₃).append (hpart _ (by simp)))))))

/-- No observed pattern enters the old text of a replacement. -/
theorem observed_old {rep : Replacement} (h : rep ∈ legacy) {q : Pattern} (hq : q ∈ observed)
    {x : Option Char} {w r : Text} (hacc : rep.shape.Accepts x w r) : q.NoEntry w := by
  rcases mem_legacy h with ⟨shape, hshape, rfl⟩ | ⟨flag, hflag, rfl⟩
  · obtain ⟨⟨hletter, -⟩, -⟩ := drawnShapes_checked shape hshape
    obtain ⟨c, hc, hmem⟩ := (Option.any_eq_true _ _).mp hletter
    obtain ⟨tail, htail⟩ := List.head?_eq_some_iff.mp hc
    have hword : "Draw".toList ++ [c] ∈ editWords := by
      refine List.mem_append_right _ (List.mem_map_of_mem ?_)
      simpa using hmem
    rw [eq_of_accepts_legacyDrawing hacc, htail, List.append_cons]
    exact observed_noEntry hq hword tail
  · obtain ⟨w', rfl, -⟩ := spells_of_accepts_legacyCalculate hacc
    exact observed_noEntry hq (by simp [editWords]) w'

/-- **A replacement is not observed.** -/
theorem occurs_apply {rep : Replacement} (h : rep ∈ legacy) {q : Pattern} (hq : q ∈ observed)
    (code : Text) : q.Occurs none (mask (rep.apply code).code) ↔ q.Occurs none (mask code) := by
  have hfits := fits_of_mem_legacy h
  have hlocal := (observed_local hq).1
  have hreplaced := Replacement.replaced_apply hfits code
  have hstarted : q ∈ started := List.mem_cons_of_mem _ hq
  constructor
  · exact hreplaced.occurs_of_occurs hfits hlocal (observed_new h hq) (started_new h hstarted)
  · exact hreplaced.occurs_imp_occurs hfits hlocal (fun x w t hacc => observed_old h hq hacc)
      (fun x w t hacc => started_old h hstarted hacc)

/-! ## They do not see each other -/

/-- Each construct has a local pattern that starts where it starts and that touches no new text. -/
theorem legacy_watched {rep : Replacement} (h : rep ∈ legacy) :
    ∃ q : Pattern, q.isLocal = true ∧ (∀ x t, rep.shape.StartsAt x t ↔ q.StartsAt x t)
      ∧ ∀ other ∈ legacy, q.NoEntry other.new.toList ∧ q.NoStart other.new.toList := by
  rcases mem_legacy h with ⟨shape, hshape, rfl⟩ | ⟨flag, hflag, rfl⟩
  · have hcheck : ∀ shape ∈ drawnShapes, (drawingCall shape).isLocal = true
        ∧ (drawingCall shape).entryFree "Draw.".toList = true
        ∧ (drawingCall shape).entryFree "Calculate = Calculate.".toList = true
        ∧ (drawingCall shape).startFree "Draw.".toList = true := by
      decide +kernel
    obtain ⟨hlocal, hdraw, hcalc, hstart⟩ := hcheck shape hshape
    refine ⟨drawingCall shape, hlocal, startsAt_legacyDrawing shape, fun other hother =>
      ⟨noEntry_new (noEntry_of_entryFree hdraw).append (noEntry_of_entryFree hcalc).append hother,
        ?_⟩⟩
    -- behind the first dot of a new text, not even the word in front of the shape starts
    rcases mem_legacy hother with ⟨shape', hshape', rfl⟩ | ⟨flag, hflag, rfl⟩
    · rw [new_drawingReplacement]
      exact (noStart_of_startFree hstart).append
        (((noStart_of_startFree (drawnShapes_checked shape' hshape').2.2).followedBy _).followedBy _)
    · rw [new_calculateReplacement]
      have hword := (calculateFlags_checked flag hflag).2.2 (unqualified ++ "Draw") (by simp)
      exact ((noStart_of_startFree hword).followedBy _).followedBy _
  · have hcheck : ∀ flag ∈ calculateFlags, (legacyCalculate flag.1).isLocal = true
        ∧ (legacyCalculate flag.1).entryFree "Draw.".toList = true
        ∧ (legacyCalculate flag.1).entryFree "Calculate = Calculate.".toList = true := by
      decide +kernel
    have hshapes : ∀ shape ∈ drawnShapes,
        (Pattern.edge ++ "CalculateOnBarClose").startFree ("Draw.".toList ++ shape.toList)
          = true := by
      decide +kernel
    obtain ⟨hlocal, hdraw, hcalc⟩ := hcheck flag hflag
    refine ⟨legacyCalculate flag.1, hlocal, fun x t => Iff.rfl, fun other hother =>
      ⟨noEntry_new (noEntry_of_entryFree hdraw).append (noEntry_of_entryFree hcalc).append hother,
        ?_⟩⟩
    have hword : (Pattern.edge ++ "CalculateOnBarClose").NoStart other.new.toList := by
      rcases mem_legacy hother with ⟨shape, hshape, rfl⟩ | ⟨flag', hflag', rfl⟩
      · rw [new_drawingReplacement]
        exact noStart_of_startFree (hshapes shape hshape)
      · rw [new_calculateReplacement]
        exact noStart_of_startFree ((calculateFlags_checked flag' hflag').2.2 _ (by simp))
    exact (((((hword.followedBy _).followedBy _).followedBy _).followedBy _).followedBy
      _).followedBy _

/-- A replaced construct is gone. -/
theorem not_occurs_apply {rep : Replacement} (h : rep ∈ legacy) (code : Text) :
    ¬ rep.shape.Occurs none (mask (rep.apply code).code) := by
  have hfits := fits_of_mem_legacy h
  obtain ⟨q, hlocal, hsame, hfree⟩ := legacy_watched h
  rw [occurs_congr hsame]
  exact (Replacement.replaced_apply hfits code).not_occurs hfits hlocal hsame (hfree rep h).1
    (hfree rep h).2

/-- No replacement brings a construct back. -/
theorem not_occurs_apply_of_not_occurs {rep other : Replacement} (h : rep ∈ legacy)
    (hother : other ∈ legacy) {code : Text} (hno : ¬ rep.shape.Occurs none (mask code)) :
    ¬ rep.shape.Occurs none (mask (other.apply code).code) := by
  have hfits := fits_of_mem_legacy hother
  obtain ⟨q, hlocal, hsame, hfree⟩ := legacy_watched h
  rw [occurs_congr hsame] at hno ⊢
  intro hocc
  exact hno ((Replacement.replaced_apply hfits code).occurs_of_occurs hfits hlocal
    (hfree other hother).1 (hfree other hother).2 hocc)

/-! ## All replacements -/

theorem foldl_andThen (rs : List Replacement) (r : Revision) :
    rs.foldl (fun revision rep => revision.andThen rep.apply) r = r.andThen (applyAll rs) := by
  induction rs generalizing r with
  | nil => simp [applyAll, Revision.andThen]
  | cons rep rs ih =>
    have hcons : ∀ code, applyAll (rep :: rs) code = (rep.apply code).andThen (applyAll rs) := by
      intro code
      rw [applyAll, List.foldl_cons, ih]
      simp [Revision.andThen]
    rw [List.foldl_cons, ih]
    simp [Revision.andThen, hcons]

theorem applyAll_cons (rep : Replacement) (rs : List Replacement) (code : Text) :
    applyAll (rep :: rs) code = (rep.apply code).andThen (applyAll rs) := by
  rw [applyAll, List.foldl_cons, foldl_andThen]
  simp [Revision.andThen]

/-- What every replacement keeps of the mask, all of them keep. -/
theorem applyAll_induction {P : Text → Prop} {rs : List Replacement}
    (hstep : ∀ rep ∈ rs, ∀ code, P (mask code) → P (mask (rep.apply code).code)) {code : Text}
    (h : P (mask code)) : P (mask (applyAll rs code).code) := by
  induction rs generalizing code with
  | nil => exact h
  | cons rep rs ih =>
    rw [applyAll_cons]
    exact ih (fun other hother => hstep other (by simp [hother])) (hstep rep (by simp) code h)

/-- **Replaced constructs are gone** after all replacements. -/
theorem not_occurs_applyAll {rs : List Replacement} (hrs : ∀ rep ∈ rs, rep ∈ legacy) {code : Text}
    {rep : Replacement} (hrep : rep ∈ rs) :
    ¬ rep.shape.Occurs none (mask (applyAll rs code).code) := by
  induction rs generalizing code with
  | nil => cases hrep
  | cons first rs ih =>
    rw [applyAll_cons]
    have hlater : ∀ other ∈ rs, other ∈ legacy := fun other hother => hrs other (by simp [hother])
    by_cases hmem : rep ∈ rs
    · exact ih hlater hmem
    · obtain rfl : rep = first := by simpa [hmem] using hrep
      refine applyAll_induction (P := fun t => ¬ rep.shape.Occurs none t) ?_
        (not_occurs_apply (hrs rep (by simp)) code)
      intro other hother code' hno
      exact not_occurs_apply_of_not_occurs (hrs rep (by simp)) (hlater other hother) hno

/-- Constructs that do not occur are not replaced. -/
theorem applyAll_of_not_occurs {rs : List Replacement} (hrs : ∀ rep ∈ rs, rep ∈ legacy)
    {code : Text} (hno : ∀ rep ∈ rs, ¬ rep.shape.Occurs none (mask code)) :
    applyAll rs code = ⟨code, []⟩ := by
  induction rs with
  | nil => rfl
  | cons rep rs ih =>
    have hfits := fits_of_mem_legacy (hrs rep (by simp))
    rw [applyAll_cons, Replacement.apply_of_not_occurs hfits (hno rep (by simp))]
    rw [Revision.andThen, ih (fun other hother => hrs other (by simp [hother]))
      (fun other hother => hno other (by simp [hother]))]
    rfl

end ChartLint.Modernize
