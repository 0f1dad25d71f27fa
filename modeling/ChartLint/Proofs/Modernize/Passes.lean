import ChartLint.Proofs.Modernize.Imports

/-!
# The passes in a row

What one modernization leaves behind, in terms of the masks between its passes. The namespace pass
does not change the kind of the script (`kindFor_fixNamespace`), the imports pass puts its directives
where they are seen or where they only widen a run of blanks (`mask_fixUsings_outside`,
`mask_fixUsings_inside`), and the replacements change nothing that the other passes look at
(`occurs_applyAll`, `firstPath_applyAll`).
-/

namespace ChartLint.Modernize

open Pattern Lexing Text Source

/-! ## The revision of a script -/

theorem andThen_andThen (r : Revision) (p q : Text → Revision) :
    (r.andThen p).andThen q = r.andThen (fun code => (p code).andThen q) := by
  simp [Revision.andThen]

theorem applyAll_append (rs rs' : List Replacement) (code : Text) :
    applyAll (rs ++ rs') code = (applyAll rs code).andThen (applyAll rs') := by
  rw [applyAll, List.foldl_append, foldl_andThen]
  rfl

/-- A modernization makes the namespace pass, the imports pass and all replacements. -/
theorem run_revision (requested : Option String) (code : Text) :
    (run requested code).revision = ((fixNamespace (kindFor requested code) code).andThen
      fixUsings).andThen (applyAll legacy) := by
  have hlegacy : applyAll legacy = fun code => (fixDrawings code).andThen fixCalculate := by
    funext code
    exact applyAll_append _ _ code
  rw [hlegacy, ← andThen_andThen]
  rfl

/-! ## The kind -/

/-- The derivation from the strategy base does not hang on what stands in front of it. -/
theorem occurs_strategyBase_front {x x' : Option Char} {t : Text}
    (h : ScriptKind.strategyBase.Occurs x t) : ScriptKind.strategyBase.Occurs x' t := by
  have hstart : ∀ {t}, ScriptKind.strategyBase.StartsAt x t →
      ScriptKind.strategyBase.StartsAt x' t := by
    rintro t ⟨w, r, rfl, hacc⟩
    exact ⟨w, r, rfl, accepts_strategyBase.mpr (accepts_strategyBase.mp hacc)⟩
  cases t with
  | nil =>
    rw [occurs_nil] at h ⊢
    exact hstart h
  | cons c t =>
    rw [occurs_cons] at h ⊢
    exact h.imp hstart id

theorem noStart_strategyBase_path {path : Text} (hpath : ∀ c ∈ path, isPathChar c = true) :
    ScriptKind.strategyBase.NoStart path := by
  refine noStart_of_forall (fun c hc x b => ?_)
  rw [begins_cons]
  rintro (⟨w, r, hsplit, hacc⟩ | h)
  · obtain ⟨⟨w', rfl, -⟩, -⟩ := accepts_strategyBase.mp hacc
    rw [List.append_assoc, List.singleton_append, List.cons.injEq] at hsplit
    have hcolon := hpath c hc
    rw [hsplit.1, show isPathChar ':' = false by decide] at hcolon
    cases hcolon
  · exact not_begins_nil _ _ _ h

/-- The path of a namespace declaration does not matter to the kind. -/
theorem occurs_strategyBase_path {g s path path' r : Text} (hs : ∀ c ∈ s, isBlank c = true)
    (hpath : ∀ c ∈ path, isPathChar c = true)
    (h : ScriptKind.strategyBase.Occurs none (g ++ (namespaceWord ++ (s ++ (path ++ r))))) :
    ScriptKind.strategyBase.Occurs none (g ++ (namespaceWord ++ (s ++ (path' ++ r)))) := by
  have hentry : ScriptKind.strategyBase.NoEntry namespaceWord :=
    noEntry_of_entryFree (by decide)
  have hword : ScriptKind.strategyBase.NoStart namespaceWord :=
    noStart_of_startFree (by decide)
  have hblank : ScriptKind.strategyBase.NoStart s :=
    started_blank (by simp [started, observed]) hs
  simp only [occurs_append] at h ⊢
  rcases h with h | h | h | h | h
  · exact .inl (h.of_noEntry (by decide) hentry rfl)
  · exact absurd h (hword _ _)
  · exact absurd h (hblank _ _)
  · exact absurd h (noStart_strategyBase_path hpath _ _)
  · exact .inr (.inr (.inr (.inr (occurs_strategyBase_front h))))

/-- **The namespace pass keeps the kind.** -/
theorem occurs_strategyBase_fixNamespace (kind : ScriptKind) (code : Text) :
    ScriptKind.strategyBase.Occurs none (mask (fixNamespace kind code).code)
      ↔ ScriptKind.strategyBase.Occurs none (mask code) := by
  by_cases hocc : namespaceDeclaration.Occurs none (mask code)
  · obtain ⟨g, s, path, r, h⟩ := exists_declares hocc
    have h' := declares_fixNamespace kind h
    rw [h.split, h'.split]
    exact ⟨occurs_strategyBase_path h.gap.2 h'.path.2, occurs_strategyBase_path h.gap.2 h.path.2⟩
  · rw [fixNamespace_of_not_occurs kind hocc]

/-- Two scripts are modernized under one kind when the kind is requested, or when both or neither
derive from the strategy base. -/
theorem kindFor_congr {requested : Option String} {code code' : Text}
    (h : requested.bind ScriptKind.ofRequest? = none →
      (ScriptKind.strategyBase.Occurs none (mask code')
        ↔ ScriptKind.strategyBase.Occurs none (mask code))) :
    kindFor requested code' = kindFor requested code := by
  unfold kindFor
  cases hkind : requested.bind ScriptKind.ofRequest? with
  | some kind => rfl
  | none =>
    have hiff := h hkind
    rw [← occursIn_iff, ← occursIn_iff] at hiff
    simp only [Option.getD_none, ScriptKind.detect, ScriptKind.ofMasked, hiff]

/-- Where no kind is asked for, the masked text decides. -/
theorem kindFor_eq_strategy_iff {requested : Option String} {code : Text}
    (h : requested.bind ScriptKind.ofRequest? = none) :
    kindFor requested code = .strategy ↔ ScriptKind.strategyBase.Occurs none (mask code) := by
  rw [← occursIn_iff, kindFor, h, Option.getD_none, ScriptKind.detect, ScriptKind.ofMasked]
  split <;> simp_all

/-! ## The imports -/

/-- **The imports that a script needs:** some always, the others for what the masked text uses. -/
theorem mem_requiredUsings {masked : Text} {path : String} :
    path ∈ requiredUsings masked ↔ path ∈ commonUsings
      ∨ (brushType.Occurs none masked ∧ path ∈ ["System.Xml.Serialization", "NinjaTrader.Gui"])
      ∨ (listType.Occurs none masked ∧ path = "System.Collections.Generic")
      ∨ (queryCall.Occurs none masked ∧ path = "System.Linq") := by
  simp only [requiredUsings, List.mem_append, ← occursIn_iff, or_assoc]
  refine or_congr Iff.rfl (or_congr ?_ (or_congr ?_ ?_))
  all_goals split <;> simp_all

/-- An import is missing if it is needed and not there already. -/
theorem mem_missingUsings {masked : Text} {path : String} :
    path ∈ missingUsings masked ↔ path ∈ requiredUsings masked
      ∧ ¬ (usingDirective path.toList).Occurs none masked := by
  rw [missingUsings, List.mem_filter, ← occursIn_iff, Bool.not_eq_true', Bool.not_eq_true]

theorem missing_importable (masked : Text) : ∀ path ∈ missingUsings masked, path ∈ importable :=
  fun _ hpath => mem_importable (mem_missingUsings.mp hpath).1

/-- Where nothing is missing the pass on imports does nothing, and says nothing. -/
theorem fixUsings_of_missing_nil {code : Text} (h : missingUsings (mask code) = []) :
    fixUsings code = ⟨code, []⟩ := by
  simp [fixUsings, h]

/-- Where something is missing it is put in, and said. -/
theorem code_fixUsings {code : Text} (h : missingUsings (mask code) ≠ []) :
    (fixUsings code).code = Text.insertAt code (usingsOffset (mask code))
      (importBlock (Text.lineBreak code) (missingUsings (mask code)))
      ∧ (fixUsings code).changes ≠ [] := by
  simp [fixUsings, h]
  rfl

section Insertion

variable {code a b : Text} (hmissing : missingUsings (mask code) ≠ []) (hsplit : mask code = a ++ b)
  (hoffset : usingsOffset (mask code) = a.length) (ha : EndsLine a)

include hsplit ha in
theorem startsLine_of_split : StartsLine code a.length := by
  rw [← startsLine_mask, hsplit]
  refine ⟨by simp, ?_⟩
  rw [List.take_left]
  exact ha

include hmissing hsplit hoffset ha

/-- **Directives outside of comments and literals** stand in the mask. -/
theorem mask_fixUsings_outside (hout : Outside code a.length) :
    mask (fixUsings code).code
      = a ++ (importBlock (Text.lineBreak code) (missingUsings (mask code)) ++ b) := by
  have hsettled := (startsLine_of_split hsplit ha).settled
  have hinert : ∀ c ∈ importBlock (Text.lineBreak code) (missingUsings (mask code)),
      isInert c = true :=
    fun c hc => (mem_importBlock (lineBreak_mem code) (missing_importable _) hc).1
  rw [(code_fixUsings hmissing).1, hoffset, mask_insertAt hout hsettled hinert, hsplit, List.take_left, List.drop_left,
    List.append_assoc]

/-- **Directives inside of a comment or literal** are blanked, between blanks. -/
theorem mask_fixUsings_inside (hanchor : Anchor (mask code) b) (hin : ¬ Outside code a.length) :
    ∃ a' z d b', a = a' ++ ['\n'] ∧ b = d :: b'
      ∧ mask (fixUsings code).code = a ++ (z ++ b)
      ∧ isBlank d = true ∧ ∀ e ∈ z, isBlank e = true := by
  have hblank : ∀ e, isVisible e = false → isBlank e = true := by
    intro e he
    have hcases : e = ' ' ∨ e = '\n' ∨ e = '\r' := by
      simpa only [isVisible, Text.isTerminator, Bool.not_eq_false', Bool.or_eq_true,
        beq_iff_eq] using he
    rcases hcases with rfl | rfl | rfl <;> decide
  -- the start of the text is outside, so there is a line in front
  have hne : a ≠ [] := by
    rintro rfl
    exact hin rfl
  obtain ⟨a', c, hlast⟩ := (List.eq_nil_or_concat a).resolve_left hne
  rw [List.concat_eq_append] at hlast
  have hc : c = '\n' := ha c (by rw [hlast]; simp)
  subst hc
  -- the region or the declaration stands behind
  have hbne : b ≠ [] := by
    cases hanchor with
    | region ink =>
      rintro rfl
      cases ink
    | declaration occurs ne => exact ne
    | start whole none =>
      rw [hsplit] at whole
      exact absurd (List.append_left_eq_self.mp whole.symm) hne
  obtain ⟨d, b', rfl⟩ := List.exists_cons_of_ne_nil hbne
  have hd : isVisible d = false :=
    not_isVisible_of_not_outside hin (by rw [hsplit, List.drop_left]; rfl)
  have hclosers : Unclosing (importBlock (Text.lineBreak code) (missingUsings (mask code))) :=
    unclosing_of_forall fun c hc =>
      (mem_importBlock (lineBreak_mem code) (missing_importable _) hc).2
  refine ⟨a', (importBlock (Text.lineBreak code) (missingUsings (mask code))).map blankOut, d, b',
    hlast, rfl, ?_, hblank d hd, ?_⟩
  · rw [(code_fixUsings hmissing).1, hoffset,
      mask_insertAt_inside (startsLine_of_split hsplit ha) hin hclosers, hsplit, List.take_left,
      List.drop_left, List.append_assoc]
  · intro e he
    obtain ⟨c, -, rfl⟩ := List.mem_map.mp he
    exact hblank _ (isVisible_blankOut c)

end Insertion

/-! ## The replacements -/

/-- **The replacements are not observed.** -/
theorem occurs_applyAll {q : Pattern} (hq : q ∈ observed) (code : Text) :
    q.Occurs none (mask (applyAll legacy code).code) ↔ q.Occurs none (mask code) := by
  refine applyAll_induction (P := fun t => q.Occurs none t ↔ q.Occurs none (mask code)) ?_ Iff.rfl
  intro rep hrep code' hiff
  exact (occurs_apply hrep hq code').trans hiff

/-- The paths that the first namespace declaration of a script may get. -/
def namespacePaths : List Text :=
  [ScriptKind.indicator.expectedNamespace.toList, ScriptKind.strategy.expectedNamespace.toList,
    "using".toList]

/-- **The replacements keep the first path.** -/
theorem firstPath_applyAll {path : Text} (hpath : path ∈ namespacePaths) {code : Text}
    (h : FirstPath none (mask code) path) :
    FirstPath none (mask (applyAll legacy code).code) path := by
  have hcheck : ∀ rep ∈ legacy, ∀ path ∈ namespacePaths,
      rep.new.toList.head?.all (fun d => decide (d ∉ path)) = true := by
    decide +kernel
  refine applyAll_induction (P := fun t => FirstPath none t path) ?_ h
  intro rep hrep code' hfirst
  refine (Replacement.replaced_apply (fits_of_mem_legacy hrep) code').firstPath hrep ?_ hfirst
  intro d hd
  have hall := hcheck rep hrep path hpath
  rw [hd] at hall
  simpa using hall

/-- The replacements declare no namespace. -/
theorem not_occurs_namespace_applyAll {code : Text}
    (h : ¬ namespaceDeclaration.Occurs none (mask code)) :
    ¬ namespaceDeclaration.Occurs none (mask (applyAll legacy code).code) := by
  refine applyAll_induction (P := fun t => ¬ namespaceDeclaration.Occurs none t) ?_ h
  intro rep hrep code' hno
  exact (Replacement.replaced_apply (fits_of_mem_legacy hrep) code').not_occurs_namespace hrep hno

end ChartLint.Modernize
