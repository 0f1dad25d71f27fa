import ChartLint.Proofs.Modernize.Passes

/-!
# Modernizing twice

A second modernization should find nothing to do. Here it is shown exactly when it does
(`run_run_iff`): when the first one had no import to add, or added its directives at a *clean cut*
(`CleanCut`): outside of comments and literals, not behind a namespace declaration that still lacks
its path, and not through an import directive or a derivation that goes on behind the cut. Every
other pass is idle the second time, whatever the layout of the script.
-/

namespace ChartLint.Modernize

open Pattern Lexing Text Source

/-! ## Clean cuts -/

/-- A cut at the offset does not break what a pattern finds in the text. -/
def Uncut (q : Pattern) (masked : Text) (offset : Nat) : Prop :=
  q.occursIn masked = true →
    q.occursIn (masked.take offset) = true ∨ q.occursIn (masked.drop offset) = true

instance (q : Pattern) (masked : Text) (offset : Nat) : Decidable (Uncut q masked offset) :=
  inferInstanceAs (Decidable (_ → _))

/-- A namespace declaration that ends, with the text, in front of its path. -/
def danglingNamespace : Pattern :=
  .edge ++ "namespace" ++ gap ++ .textEnd

/-- **A clean cut:** directives that are added at the offset are seen, and break neither a namespace
declaration nor a required directive nor, if it decides the kind, the derivation from the strategy
base. -/
structure CleanCut (requested : Option String) (code : Text) (offset : Nat) : Prop where
  outside : Outside code offset
  complete : danglingNamespace.occursIn ((mask code).take offset) = false
  directives : ∀ path ∈ requiredUsings (mask code),
    Uncut (usingDirective path.toList) (mask code) offset
  kind : requested.bind ScriptKind.ofRequest? = none →
    Uncut ScriptKind.strategyBase (mask code) offset

instance (requested : Option String) (code : Text) (offset : Nat) :
    Decidable (CleanCut requested code offset) :=
  decidable_of_iff
    (Outside code offset ∧ danglingNamespace.occursIn ((mask code).take offset) = false
      ∧ (∀ path ∈ requiredUsings (mask code),
        Uncut (usingDirective path.toList) (mask code) offset)
      ∧ (requested.bind ScriptKind.ofRequest? = none →
        Uncut ScriptKind.strategyBase (mask code) offset))
    ⟨fun ⟨h₁, h₂, h₃, h₄⟩ => ⟨h₁, h₂, h₃, h₄⟩, fun ⟨h₁, h₂, h₃, h₄⟩ => ⟨h₁, h₂, h₃, h₄⟩⟩

/-- A modernization settles the script: it has no import to add, or adds its directives at a clean
cut of the script with its namespace in place. -/
def Settles (requested : Option String) (code : Text) : Prop :=
  let placed := (fixNamespace (kindFor requested code) code).code
  missingUsings (mask placed) = [] ∨ CleanCut requested placed (usingsOffset (mask placed))

instance (requested : Option String) (code : Text) : Decidable (Settles requested code) :=
  inferInstanceAs (Decidable (_ ∨ _))

theorem uncut_append {q : Pattern} {a b : Text} :
    Uncut q (a ++ b) a.length ↔
      (q.Occurs none (a ++ b) → q.Occurs none a ∨ q.Occurs none b) := by
  simp only [Uncut, occursIn_iff, List.take_left, List.drop_left]

theorem accepts_danglingNamespace {x : Option Char} {w r : Text} :
    danglingNamespace.Accepts x w r ↔ x.any isWord = false ∧ (∃ s, w = namespaceWord ++ s
      ∧ (∀ c ∈ s, isBlank c = true) ∧ s ≠ []) ∧ (r = [] ∨ r = ['\n']) := by
  have hword : isWord 'n' = true := by decide
  simp only [danglingNamespace, accepts_append_assoc]
  simp only [accepts_append, accepts_text, accepts_gap, Accepts]
  constructor
  · rintro ⟨_, _, rfl, ⟨rfl, hedge⟩, _, _, rfl, rfl, s, _, rfl, hs, rfl, hr⟩
    change (x.any isWord != isWord 'n') = true at hedge
    rw [hword] at hedge
    refine ⟨by simpa using hedge, ⟨s, ?_, hs⟩, hr⟩
    rw [List.nil_append, List.append_nil]
    rfl
  · rintro ⟨hx, ⟨s, rfl, hs⟩, hr⟩
    refine ⟨[], _, rfl, ⟨rfl, ?_⟩, namespaceWord, s, rfl, rfl, s, [], ?_, hs, rfl, hr⟩
    · change (x.any isWord != isWord 'n') = true
      rw [hx, hword]
      rfl
    · rw [List.append_nil]

theorem danglingNamespace_iff {a : Text} : danglingNamespace.occursIn a = true ↔ Dangling none a := by
  rw [occursIn_iff]
  constructor
  · rintro ⟨a₀, _, rfl, _, r, rfl, hacc⟩
    obtain ⟨hfront, ⟨s, rfl, hs, hne⟩, hr⟩ := accepts_danglingNamespace.mp hacc
    refine ⟨a₀, s ++ r, by rw [List.append_assoc], hfront, ?_, ?_⟩
    · exact fun hnil => hne (List.append_eq_nil_iff.mp hnil).1
    · intro c hc
      rcases List.mem_append.mp hc with hc | hc
      · exact hs c hc
      · rcases hr with rfl | rfl
        · cases hc
        · rw [List.mem_singleton.mp hc]
          decide
  · rintro ⟨a₀, s, rfl, hfront, hne, hs⟩
    refine ⟨a₀, _, rfl, namespaceWord ++ s, [], by rw [List.append_nil], ?_⟩
    exact accepts_danglingNamespace.mpr ⟨hfront, ⟨s, rfl, hs, hne⟩, .inl rfl⟩

/-! ## Scripts with nothing to do -/

/-- The namespace pass and the imports pass have nothing to do. -/
structure Ready (requested : Option String) (code : Text) : Prop where
  path : namespaceDeclaration.Occurs none (mask code) →
    FirstPath none (mask code) (kindFor requested code).expectedNamespace.toList
  imports : missingUsings (mask code) = []

/-- Without constructs of the previous release, a modernization is idle when the other passes
are. -/
theorem run_eq_iff_ready (requested : Option String) {code : Text}
    (hlegacy : ∀ rep ∈ legacy, ¬ rep.shape.Occurs none (mask code)) :
    (run requested code).revision = ⟨code, []⟩ ↔ Ready requested code := by
  rw [run_revision]
  constructor
  · intro h
    have hchanges := congrArg Revision.changes h
    simp only [Revision.andThen, List.append_eq_nil_iff] at hchanges
    obtain ⟨⟨hnamespace, himports⟩, -⟩ := hchanges
    have hpath : namespaceDeclaration.Occurs none (mask code) →
        FirstPath none (mask code) (kindFor requested code).expectedNamespace.toList := by
      intro hocc
      obtain ⟨g, s, path, r, hdecl⟩ := exists_declares hocc
      by_contra hne
      refine changes_fixNamespace (kindFor requested code) ⟨g, s, r, hdecl⟩ ?_ hnamespace
      rintro rfl
      exact hne ⟨g, s, r, hdecl⟩
    refine ⟨hpath, ?_⟩
    rw [fixNamespace_of_path _ hpath] at himports
    by_contra hmissing
    exact (code_fixUsings hmissing).2 himports
  · rintro ⟨hpath, himports⟩
    simp only [Revision.andThen, fixNamespace_of_path _ hpath, fixUsings_of_missing_nil himports,
      applyAll_of_not_occurs (fun rep hrep => hrep) hlegacy, List.append_nil]

/-- A script has one first path. -/
theorem FirstPath.unique {t path path' : Text} (h : FirstPath none t path)
    (h' : FirstPath none t path') : path = path' := by
  obtain ⟨g, s, r, hdecl⟩ := h
  obtain ⟨g', s', r', hdecl'⟩ := h'
  obtain ⟨m, hm, -, hspan⟩ := hdecl.find?
  obtain ⟨m', hm', -, hspan'⟩ := hdecl'.find?
  obtain rfl : m' = m := Option.some.inj (hm'.symm.trans hm)
  have htext : ∀ {g s path r : Text}, Declares none t g s path r →
      Text.slice t (g ++ (namespaceWord ++ s)).length
        ((g ++ (namespaceWord ++ s)).length + path.length) = path := by
    intro g s path r hd
    have hsplit : t = (g ++ (namespaceWord ++ s)) ++ (path ++ r) := by
      rw [hd.split]
      simp only [List.append_assoc]
    rw [Text.slice_add, hsplit, List.drop_left, List.take_left]
  have hspans := hspan.symm.trans hspan'
  rw [Span.mk.injEq] at hspans
  rw [← htext hdecl, ← htext hdecl', hspans.2, hspans.1]

theorem FirstPath.eq_of_occurs {t path path' : Text} (h : FirstPath none t path)
    (h' : namespaceDeclaration.Occurs none t → FirstPath none t path') : path = path' :=
  h.unique (h' h.occurs)

theorem expectedNamespace_mem (kind : ScriptKind) :
    kind.expectedNamespace.toList ∈ namespacePaths := by
  cases kind <;> simp [namespacePaths]

/-- The namespace pass leaves the path of the kind, if it leaves one at all. -/
theorem firstPath_placed (requested : Option String) (code : Text) :
    let placed := (fixNamespace (kindFor requested code) code).code
    namespaceDeclaration.Occurs none (mask placed) →
      FirstPath none (mask placed) (kindFor requested placed).expectedNamespace.toList := by
  intro placed hocc
  have hkind : kindFor requested placed = kindFor requested code :=
    kindFor_congr (fun _ => occurs_strategyBase_fixNamespace _ code)
  rw [hkind]
  by_cases hcode : namespaceDeclaration.Occurs none (mask code)
  · obtain ⟨g, s, path, r, hdecl⟩ := exists_declares hcode
    exact ⟨g, s, r, declares_fixNamespace _ hdecl⟩
  · have hsame : placed = code := by
      change (fixNamespace _ code).code = code
      rw [fixNamespace_of_not_occurs _ hcode]
    rw [hsame] at hocc
    exact absurd hocc hcode

theorem missingUsings_eq_nil {masked : Text} : missingUsings masked = [] ↔
    ∀ path ∈ requiredUsings masked, (usingDirective path.toList).Occurs none masked := by
  rw [List.eq_nil_iff_forall_not_mem]
  simp only [mem_missingUsings, not_and, not_not]

/-- What is required of one text is required of another in which the same is found. -/
theorem requiredUsings_subset {masked masked' : Text}
    (h : ∀ q ∈ [brushType, listType, queryCall], q.Occurs none masked → q.Occurs none masked')
    {path : String} (hpath : path ∈ requiredUsings masked) : path ∈ requiredUsings masked' := by
  rw [mem_requiredUsings] at hpath ⊢
  rcases hpath with hpath | ⟨hocc, hpath⟩ | ⟨hocc, hpath⟩ | ⟨hocc, hpath⟩
  · exact .inl hpath
  · exact .inr (.inl ⟨h _ (by simp) hocc, hpath⟩)
  · exact .inr (.inr (.inl ⟨h _ (by simp) hocc, hpath⟩))
  · exact .inr (.inr (.inr ⟨h _ (by simp) hocc, hpath⟩))

theorem typePatterns_observed : ∀ q ∈ [brushType, listType, queryCall], q ∈ observed := by
  intro q hq
  refine List.mem_append_left _ ?_
  exact List.mem_cons_of_mem _ hq

/-- When the same is observed in two texts, the same imports are missing. -/
theorem missingUsings_congr {masked masked' : Text}
    (h : ∀ q ∈ observed, q.Occurs none masked ↔ q.Occurs none masked') {path : String} :
    path ∈ missingUsings masked ↔ path ∈ missingUsings masked' := by
  rw [mem_missingUsings, mem_missingUsings]
  have hrequired : path ∈ requiredUsings masked ↔ path ∈ requiredUsings masked' :=
    ⟨requiredUsings_subset (fun q hq => (h q (typePatterns_observed q hq)).mp),
      requiredUsings_subset (fun q hq => (h q (typePatterns_observed q hq)).mpr)⟩
  rw [hrequired]
  refine and_congr_right (fun hpath => not_congr (h _ ?_))
  exact usingDirective_mem_observed (mem_importable hpath)

/-- **The replacements leave the other passes idle** if they are, and busy if they are. -/
theorem ready_applyAll (requested : Option String) {code : Text}
    (hpaths : namespaceDeclaration.Occurs none (mask code) →
      ∃ path ∈ namespacePaths, FirstPath none (mask code) path) :
    Ready requested (applyAll legacy code).code ↔ Ready requested code := by
  have hkind : kindFor requested (applyAll legacy code).code = kindFor requested code :=
    kindFor_congr (fun _ => occurs_applyAll (by simp [observed]) code)
  have hmissing : missingUsings (mask (applyAll legacy code).code) = []
      ↔ missingUsings (mask code) = [] := by
    rw [List.eq_nil_iff_forall_not_mem, List.eq_nil_iff_forall_not_mem]
    refine forall_congr' (fun path => not_congr ?_)
    exact missingUsings_congr (fun q hq => occurs_applyAll hq code)
  constructor
  · intro hready
    refine ⟨fun hocc => ?_, hmissing.mp hready.imports⟩
    obtain ⟨path, hmem, hfirst⟩ := hpaths hocc
    have hfinal : FirstPath none (mask (applyAll legacy code).code) path :=
      firstPath_applyAll hmem hfirst
    have hexpected := hfinal.eq_of_occurs hready.path
    rw [hkind] at hexpected
    rw [← hexpected]
    exact hfirst
  · rintro ⟨hpath, himports⟩
    refine ⟨fun hocc => ?_, hmissing.mpr himports⟩
    have hbefore : namespaceDeclaration.Occurs none (mask code) := by
      by_contra hno
      exact not_occurs_namespace_applyAll hno hocc
    rw [hkind]
    exact firstPath_applyAll (expectedNamespace_mem _) (hpath hbefore)

/-! ## The cut -/

section Cut

variable {requested : Option String} {placed a b : Text} (hsplit : mask placed = a ++ b)
  (ha : EndsLine a)

include ha in
/-- What is observed on one side of a line start is observed in the whole text. -/
theorem occurs_append_of_occurs {q : Pattern} (hq : q ∈ observed)
    (h : q.Occurs none a ∨ q.Occurs none b) : q.Occurs none (a ++ b) := by
  obtain ⟨hlocal, hempty, hend⟩ := observed_local hq
  rcases h with h | h
  · exact h.append_of_endsLine hlocal hempty (hend '\n' rfl) ha b
  · refine (occurs_append q none a b).mpr (.inr ?_)
    have hfront : SameFront none (some '\n') := .inr ⟨rfl, rfl⟩
    rw [occurs_congr_front hlocal ha.sameFront, ← occurs_congr_front hlocal hfront]
    exact h

include ha in
/-- What is observed across a line start, and on neither side of it, shows in what comes next. -/
theorem firstInk_of_cut {q : Pattern} (hq : q ∈ observed) {heads : List Char}
    (helastic : q.Elastic heads) (h : q.Occurs none (a ++ b))
    (hcut : ¬ (q.Occurs none a ∨ q.Occurs none b)) : ∃ c ∈ heads, firstInk b = some c := by
  obtain ⟨hlocal, -, hend⟩ := observed_local hq
  have hfront : SameFront none (some '\n') := .inr ⟨rfl, rfl⟩
  rcases Occurs.across helastic hlocal (hend '\n' rfl) ha h with h | h | h
  · exact absurd (.inl h) hcut
  · rw [occurs_congr_front hlocal ha.sameFront, ← occurs_congr_front hlocal hfront] at h
    exact absurd (.inr h) hcut
  · exact h

variable (hmissing : missingUsings (mask placed) ≠ [])

include ha hmissing in
theorem occurs_after_insertion {q : Pattern} (hq : q ∈ [ScriptKind.strategyBase, brushType, listType,
    queryCall]) :
    q.Occurs none
        (a ++ (importBlock (Text.lineBreak placed) (missingUsings (mask placed)) ++ b))
      ↔ q.Occurs none a ∨ q.Occurs none b := by
  have hobserved : q ∈ observed := List.mem_append_left _ hq
  have hblind : q ∈ importBlind := List.mem_cons_of_mem _ hq
  rw [occurs_insert_block (lineBreak_mem placed) (missing_importable _) hmissing hobserved ha b]
  have hnone := noStart_importBlock (lineBreak_mem placed) (missing_importable (mask placed)) hblind
  rw [or_iff_right (hnone _ _)]

include ha hmissing in
theorem occurs_directive_after_insertion {path : String} (hpath : path ∈ importable) :
    (usingDirective path.toList).Occurs none
        (a ++ (importBlock (Text.lineBreak placed) (missingUsings (mask placed)) ++ b))
      ↔ (usingDirective path.toList).Occurs none a ∨ path ∈ missingUsings (mask placed)
        ∨ (usingDirective path.toList).Occurs none b := by
  have hfront : (lastOr none a).any isWord = false := by
    rw [ha.sameFront.any (by decide)]
    decide
  rw [occurs_insert_block (lineBreak_mem placed) (missing_importable _) hmissing
    (usingDirective_mem_observed hpath) ha b,
    begins_importBlock (lineBreak_mem placed) (missing_importable _) hpath hfront]

include hsplit ha hmissing in
/-- **The imports pass is idle afterwards** when the cut breaks no required directive. -/
theorem missingUsings_after_insertion {t : Text}
    (ht : t = a ++ (importBlock (Text.lineBreak placed) (missingUsings (mask placed)) ++ b)) :
    missingUsings t = [] ↔ ∀ path ∈ requiredUsings (mask placed),
      Uncut (usingDirective path.toList) (mask placed) a.length := by
  have htypes : ∀ q ∈ [brushType, listType, queryCall],
      (q.Occurs none t ↔ q.Occurs none a ∨ q.Occurs none b) := by
    intro q hq
    rw [ht]
    exact occurs_after_insertion ha hmissing (List.mem_cons_of_mem _ hq)
  rw [missingUsings_eq_nil]
  constructor
  · intro hall path hpath
    have himportable := mem_importable hpath
    rw [hsplit, uncut_append]
    intro hocc
    by_contra hcut
    obtain ⟨c, hc, hink⟩ := firstInk_of_cut ha (usingDirective_mem_observed himportable)
      (elastic_usingDirective himportable) hocc hcut
    -- nothing else that the pass looks at can be cut at the same place
    have hkept : ∀ q ∈ [brushType, listType, queryCall], ∀ heads, q.Elastic heads →
        (∀ d ∈ heads, d ∉ ['S', 'N', ';']) → q.Occurs none (mask placed) → q.Occurs none t := by
      intro q hq heads helastic hheads hq'
      rw [hsplit] at hq'
      by_contra hno
      rw [htypes q hq] at hno
      obtain ⟨d, hd, hink'⟩ :=
        firstInk_of_cut ha (typePatterns_observed q hq) helastic hq' hno
      obtain rfl : d = c := Option.some.inj (hink'.symm.trans hink)
      exact hheads d hd hc
    have hrequired : path ∈ requiredUsings t := by
      refine requiredUsings_subset (fun q hq => ?_) hpath
      have hcases : q = brushType ∨ q = listType ∨ q = queryCall := by simpa using hq
      rcases hcases with rfl | rfl | rfl
      · exact hkept _ hq [] elastic_brushType (by simp)
      · exact hkept _ hq ['<'] elastic_listType (by simp)
      · exact hkept _ hq ['('] elastic_queryCall (by simp)
    have hdirective := hall path hrequired
    rw [ht, occurs_directive_after_insertion ha hmissing himportable] at hdirective
    rcases hdirective with h | h | h
    · exact hcut (.inl h)
    · rw [mem_missingUsings, hsplit] at h
      exact h.2 hocc
    · exact hcut (.inr h)
  · intro huncut path hpath
    have hrequired : path ∈ requiredUsings (mask placed) := by
      refine requiredUsings_subset (fun q hq hocc => ?_) hpath
      rw [hsplit]
      exact occurs_append_of_occurs ha (typePatterns_observed q hq) ((htypes q hq).mp hocc)
    have himportable := mem_importable hrequired
    rw [ht, occurs_directive_after_insertion ha hmissing himportable]
    by_cases hocc : (usingDirective path.toList).Occurs none (mask placed)
    · have hsides := huncut path hrequired
      rw [hsplit, uncut_append, ← hsplit] at hsides
      rcases hsides hocc with h | h
      · exact .inl h
      · exact .inr (.inr h)
    · exact .inr (.inl (mem_missingUsings.mpr ⟨hrequired, hocc⟩))

variable (hplaced : namespaceDeclaration.Occurs none (mask placed) →
  FirstPath none (mask placed) (kindFor requested placed).expectedNamespace.toList)

include hsplit ha hmissing in
/-- **Directives that are not seen** are missing again. -/
theorem not_ready_of_inside (hoffset : usingsOffset (mask placed) = a.length)
    (hanchor : Anchor (mask placed) b) (hin : ¬ Outside placed a.length) :
    ¬ Ready requested (applyAll legacy (fixUsings placed).code).code := by
  obtain ⟨a', z, d, b', rfl, rfl, hafter, hd, hz⟩ :=
    mask_fixUsings_inside hmissing hsplit hoffset ha hanchor hin
  intro hready
  refine hmissing (List.eq_nil_iff_forall_not_mem.mpr (fun path hpath => ?_))
  have hsame : ∀ q ∈ observed, q.Occurs none (mask placed)
      ↔ q.Occurs none (mask (applyAll legacy (fixUsings placed).code).code) := by
    intro q hq
    rw [occurs_applyAll hq, hafter, hsplit, occurs_widen hq (by decide) hd hz]
  have hagain := (missingUsings_congr hsame).mp hpath
  rw [hready.imports] at hagain
  cases hagain

include hmissing in
/-- **A dangling declaration** gets the wrong path. -/
theorem not_ready_of_dangling (hfirst : ¬ namespaceDeclaration.Begins none a b)
    (hdangling : Dangling none a)
    (hmask : mask (fixUsings placed).code
      = a ++ (importBlock (Text.lineBreak placed) (missingUsings (mask placed)) ++ b)) :
    ¬ Ready requested (applyAll legacy (fixUsings placed).code).code := by
  have husing : FirstPath none (mask (fixUsings placed).code) "using".toList := by
    rw [hmask]
    exact firstPath_of_dangling (lineBreak_mem placed) (missing_importable _) hmissing hfirst
      hdangling
  have hfinal := firstPath_applyAll (by simp [namespacePaths]) husing
  intro hready
  have hcheck : ∀ kind : ScriptKind, "using".toList ≠ kind.expectedNamespace.toList := by
    intro kind
    cases kind <;> decide
  exact hcheck _ (hfinal.eq_of_occurs hready.path)

section Inserted

variable (hfirst : ¬ namespaceDeclaration.Begins none a b) (hdangling : ¬ Dangling none a)
  {inserted : Text} (hmask : mask inserted
    = a ++ (importBlock (Text.lineBreak placed) (missingUsings (mask placed)) ++ b))

include hsplit ha hmissing hfirst hdangling hmask in
theorem FirstPath.after_insertion {path : Text} (h : FirstPath none (mask placed) path) :
    FirstPath none (mask inserted) path := by
  rw [hsplit] at h
  rw [hmask]
  exact firstPath_insert_block (lineBreak_mem placed) (missing_importable _) hmissing ha hfirst
    hdangling h

include hsplit ha hmissing hdangling hmask in
theorem occurs_namespace_of_inserted (h : namespaceDeclaration.Occurs none (mask inserted)) :
    namespaceDeclaration.Occurs none (mask placed) := by
  by_contra hno
  rw [hsplit] at hno
  rw [hmask] at h
  exact not_occurs_insert_block (lineBreak_mem placed) (missing_importable _) hmissing ha hno
    hdangling h

include hsplit ha hmissing hplaced hfirst hdangling hmask in
/-- The kind of the script, and with it the path, stays when the cut does not break the derivation
that decides the kind. -/
theorem path_after_insertion (hanchor : Anchor (mask placed) b) :
    (namespaceDeclaration.Occurs none (mask inserted) →
      FirstPath none (mask inserted) (kindFor requested inserted).expectedNamespace.toList)
      ↔ (requested.bind ScriptKind.ofRequest? = none →
        Uncut ScriptKind.strategyBase (mask placed) a.length) := by
  have hstrategy : ScriptKind.strategyBase.Occurs none (mask inserted)
      ↔ ScriptKind.strategyBase.Occurs none a ∨ ScriptKind.strategyBase.Occurs none b := by
    rw [hmask]
    exact occurs_after_insertion ha hmissing (by simp)
  rw [hsplit, uncut_append, ← hsplit]
  constructor
  · intro hpath hrequested hocc
    by_contra hcut
    have hocc' := hocc
    rw [hsplit] at hocc'
    obtain ⟨c, hc, hink⟩ := firstInk_of_cut ha (by simp [observed]) elastic_strategyBase hocc' hcut
    have hdecl : namespaceDeclaration.Occurs none (mask placed) := by
      cases hanchor with
      | region ink =>
        rw [ink, Option.some.injEq] at hink
        rw [← hink] at hc
        simp at hc
      | declaration occurs ne => exact occurs
      | start whole none =>
        rw [← whole] at hocc
        exact absurd (.inr hocc) hcut
    -- the script was a strategy, and is none now
    have hbefore : kindFor requested placed = .strategy :=
      (kindFor_eq_strategy_iff hrequested).mpr hocc
    have hafter : kindFor requested inserted ≠ .strategy := by
      rw [ne_eq, kindFor_eq_strategy_iff hrequested, hstrategy]
      exact hcut
    have hkept := (hplaced hdecl).after_insertion hsplit ha hmissing hfirst hdangling hmask
    have hsame := hkept.eq_of_occurs hpath
    rw [hbefore] at hsame
    have hindicator : kindFor requested inserted = .indicator := by
      cases hkind : kindFor requested inserted with
      | indicator => rfl
      | strategy => exact absurd hkind hafter
    rw [hindicator] at hsame
    exact absurd hsame (by decide)
  · intro huncut hocc
    have hkind : kindFor requested inserted = kindFor requested placed := by
      refine kindFor_congr (fun hrequested => ?_)
      rw [hstrategy]
      refine ⟨fun hsides => ?_, huncut hrequested⟩
      rw [hsplit]
      exact occurs_append_of_occurs ha (by simp [observed]) hsides
    rw [hkind]
    have hdecl := occurs_namespace_of_inserted hsplit ha hmissing hdangling hmask hocc
    exact (hplaced hdecl).after_insertion hsplit ha hmissing hfirst hdangling hmask

end Inserted

end Cut

/-- **A script with its namespace in place** is ready after the other passes exactly when its
directives go to a clean cut. -/
theorem ready_iff_cleanCut {requested : Option String} {placed : Text}
    (hmissing : missingUsings (mask placed) ≠ [])
    (hplaced : namespaceDeclaration.Occurs none (mask placed) →
      FirstPath none (mask placed) (kindFor requested placed).expectedNamespace.toList) :
    Ready requested (applyAll legacy (fixUsings placed).code).code
      ↔ CleanCut requested placed (usingsOffset (mask placed)) := by
  obtain ⟨a, b, hsplit, hoffset, ha, hfirst, hanchor⟩ := usingsOffset_spec (mask placed)
  rw [hoffset]
  have htake : (mask placed).take a.length = a := by rw [hsplit, List.take_left]
  by_cases hout : Outside placed a.length
  · have hmask := mask_fixUsings_outside hmissing hsplit hoffset ha hout
    by_cases hdangling : Dangling none a
    · refine iff_of_false (not_ready_of_dangling hmissing hfirst hdangling hmask) (fun hclean => ?_)
      have hcomplete := hclean.complete
      rw [htake, danglingNamespace_iff.mpr hdangling] at hcomplete
      cases hcomplete
    · -- nothing dangles in front of the cut, so a declaration stood there before the directives did
      have hpaths : namespaceDeclaration.Occurs none (mask (fixUsings placed).code) →
          ∃ path ∈ namespacePaths, FirstPath none (mask (fixUsings placed).code) path := by
        intro hocc
        have hdecl := occurs_namespace_of_inserted hsplit ha hmissing hdangling hmask hocc
        exact ⟨_, expectedNamespace_mem _,
          (hplaced hdecl).after_insertion hsplit ha hmissing hfirst hdangling hmask⟩
      have hpath := path_after_insertion hsplit ha hmissing hplaced hfirst hdangling hmask hanchor
      have himports := missingUsings_after_insertion hsplit ha hmissing hmask
      have hcomplete : danglingNamespace.occursIn ((mask placed).take a.length) = false := by
        rw [htake, Bool.eq_false_iff, ne_eq, danglingNamespace_iff]
        exact hdangling
      rw [ready_applyAll requested hpaths]
      constructor
      · intro hready
        exact ⟨hout, hcomplete, himports.mp hready.imports, hpath.mp hready.path⟩
      · intro hclean
        exact ⟨hpath.mpr hclean.kind, himports.mpr hclean.directives⟩
  · exact iff_of_false (not_ready_of_inside hsplit ha hmissing hoffset hanchor hout)
      (fun hclean => hout hclean.outside)

/-! ## The second modernization -/

/-- **A second modernization is idle exactly when the first one settles the script:** it gives the
same text back and lists no change. -/
theorem run_run_iff (requested : Option String) (code : Text) :
    (run requested (run requested code).revision.code).revision
        = ⟨(run requested code).revision.code, []⟩
      ↔ Settles requested code := by
  have hplaced := firstPath_placed requested code
  have honce : (run requested code).revision.code
      = (applyAll legacy (fixUsings (fixNamespace (kindFor requested code) code).code).code).code := by
    simp only [run_revision, Revision.andThen]
  rw [honce, run_eq_iff_ready requested (fun rep => not_occurs_applyAll (fun rep hrep => hrep))]
  unfold Settles
  generalize (fixNamespace (kindFor requested code) code).code = placed at hplaced ⊢
  by_cases hmissing : missingUsings (mask placed) = []
  · rw [fixUsings_of_missing_nil hmissing]
    have hpaths : namespaceDeclaration.Occurs none (mask placed) →
        ∃ path ∈ namespacePaths, FirstPath none (mask placed) path :=
      fun hocc => ⟨_, expectedNamespace_mem _, hplaced hocc⟩
    rw [ready_applyAll requested hpaths]
    exact iff_of_true ⟨hplaced, hmissing⟩ (.inl hmissing)
  · rw [ready_iff_cleanCut hmissing hplaced]
    exact (or_iff_right hmissing).symm

/-- In a script whose namespace stands behind the last line of a comment, the directives go into the
comment, and a second modernization adds them once more. -/
theorem changes_run_run_comment :
    let once := (run none "/*\n*/ namespace X".toList).revision.code
    (run none once).revision.changes ≠ [] := by
  decide +kernel

end ChartLint.Modernize
