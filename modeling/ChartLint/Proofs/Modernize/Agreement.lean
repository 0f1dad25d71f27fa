import ChartLint.Proofs.Modernize.Idempotent
import ChartLint.Proofs.Pattern.Kept
import ChartLint.Rule.Skeleton

/-!
# The modernization and the skeleton rule

The rule reads the base class off the declaration of the class and asks for a namespace that goes with it. The
modernization picks the namespace, and takes a script for a strategy where anything looks like a derivation from
`Strategy`. A class that derives from `Strategy` is such a place (`occurs_strategyBase_of_base`), so the two can
only part over an indicator. They also part where the imports come to stand behind the word of a namespace
declaration that lacks its path. `agrees_iff` says that these are the only two ways.
-/

namespace ChartLint.Modernize

open Pattern Lexing Text Source

/-! ## The base of a class -/

/-- The names of the two bases. -/
def baseNames : List String :=
  ["Indicator", "Strategy"]

theorem accepts_baseNames {x : Option Char} {w r : Text} :
    (anyWord baseNames).Accepts x w r ↔ w = "Indicator".toList ∨ w = "Strategy".toList := by
  rw [anyWord, accepts_anyOf (by simp [baseNames])]
  simp [baseNames, accepts_text]

/-- What a class declaration ends with: a colon, blanks and the base, in front of what is no word. -/
theorem accepts_classDeclaration {x : Option Char} {w r : Text} (h : classDeclaration.Accepts x w r) :
    ∃ w₀ s base, w = w₀ ++ ':' :: (s ++ base) ∧ (∀ c ∈ s, isBlank c = true)
      ∧ (base = "Indicator".toList ∨ base = "Strategy".toList) ∧ r.head?.any isWord = false := by
  rw [classDeclaration, accepts_append] at h
  obtain ⟨_, _, rfl, h, rfl, hedge⟩ := h
  rw [accepts_append] at h
  obtain ⟨_, base, rfl, h, hkept⟩ := h
  rw [accepts_append] at h
  obtain ⟨_, s, rfl, h, hs⟩ := h
  rw [accepts_append] at h
  obtain ⟨w₀, _, rfl, -, hcolon⟩ := h
  obtain rfl := accepts_text.mp hcolon
  have hbase : base = "Indicator".toList ∨ base = "Strategy".toList := accepts_baseNames.mp hkept
  refine ⟨w₀, s, base, by simp, accepts_many.mp hs, hbase, ?_⟩
  have hletter : ∀ y, (lastOr y base).any isWord = true := by
    intro y
    rcases hbase with rfl | rfl <;> rfl
  rw [lastOr_append, hletter] at hedge
  simpa using hedge

/-- Two bases that end at one place are the same. -/
theorem base_unique {u u' base base' : Text} (h : u ++ base = u' ++ base')
    (hbase : base = "Indicator".toList ∨ base = "Strategy".toList)
    (hbase' : base' = "Indicator".toList ∨ base' = "Strategy".toList) : base = base' := by
  have hlast := congrArg List.getLast? h
  rcases hbase with rfl | rfl <;> rcases hbase' with rfl | rfl
  · rfl
  · simp at hlast
  · simp at hlast
  · rfl

theorem base_of_mem_findAll {t : Text} {m : Match} (h : m ∈ classDeclaration.findAll t) :
    (m.part .kind t = "Indicator".toList ∨ m.part .kind t = "Strategy".toList)
      ∧ ∃ g s r, t = g ++ (':' :: (s ++ m.part .kind t) ++ r) ∧ (∀ c ∈ s, isBlank c = true)
        ∧ r.head?.any isWord = false := by
  have hlast : KeepsLast .kind classDeclaration :=
    ((keepsLast_keep rfl).append_left rfl).append_edge
  obtain ⟨g, w, r, x, hsplit, hacc, q, hq, u, y, r', hends, hpart⟩ :=
    (found_of_mem_findAll h).part_of_keepsLast rfl hlast
  obtain ⟨w₀, s, base, rfl, hs, hbase, hr⟩ := accepts_classDeclaration hacc
  have hkind : m.part .kind t = "Indicator".toList ∨ m.part .kind t = "Strategy".toList := by
    obtain rfl : q = anyWord baseNames := List.mem_singleton.mp hq
    exact accepts_baseNames.mp hpart
  have hsame : base = m.part .kind t := by
    have hends' : (g ++ (w₀ ++ ':' :: s)) ++ base = u ++ m.part .kind t := by
      rw [← hends]
      simp
    exact base_unique hends' hbase hkind
  rw [hsame] at hsplit
  exact ⟨hkind, g ++ w₀, s, r, hsplit.trans (by simp), hs, hr⟩

/-- **A class that derives from `Strategy`** makes its script a strategy. -/
theorem occurs_strategyBase_of_base {t : Text} {m : Match} (h : m ∈ classDeclaration.findAll t)
    (hbase : m.part .kind t = "Strategy".toList) : ScriptKind.strategyBase.Occurs none t := by
  obtain ⟨-, g, s, r, hsplit, hs, hr⟩ := base_of_mem_findAll h
  rw [hbase] at hsplit
  refine ⟨g, _, hsplit, _, r, rfl, accepts_strategyBase.mpr ⟨?_, hr⟩⟩
  exact ⟨_, rfl, s, _, rfl, hs, by simp, _, rfl, rfl⟩

/-! ## The namespace after a modernization -/

/-- Blanks in front of what goes on behind a run of blanks. -/
theorem eq_append_of_blanks {z b s r : Text} {c : Char} (hz : ∀ e ∈ z, isBlank e = true)
    (hc : isPathChar c = true) (h : z ++ b = s ++ c :: r) : ∃ s', s = z ++ s' ∧ b = s' ++ c :: r := by
  rcases List.append_eq_append_iff.mp h with ⟨s', rfl, hb⟩ | ⟨z', rfl, hr⟩
  · exact ⟨s', rfl, hb⟩
  · cases z' with
    | nil => exact ⟨[], by simp, hr.symm⟩
    | cons e z' =>
      rw [List.cons_append, List.cons.injEq] at hr
      obtain rfl := hr.1
      have hblank := hz c (by simp)
      rw [isPathChar_of_isBlank hblank] at hc
      cases hc

/-- A declaration that starts in front of blanks starts there if there are fewer of them. -/
theorem begins_of_widened {x : Option Char} {a z b : Text} {d : Char} (hz : ∀ e ∈ z, isBlank e = true)
    (hd : isBlank d = true) (h : namespaceDeclaration.Begins x a (z ++ d :: b)) :
    namespaceDeclaration.Begins x a (d :: b) := by
  obtain ⟨a₁, a₂, rfl, hne, hstart⟩ := h
  obtain ⟨hfront, s, c, r, hsplit, hs, hc⟩ := startsAt_namespaceDeclaration.mp hstart
  refine ⟨a₁, a₂, rfl, hne, startsAt_namespaceDeclaration.mpr ⟨hfront, ?_⟩⟩
  have hpath : ∀ e, isBlank e = true → e ≠ c := fun _ he =>
    (ne_of_class hc (isPathChar_of_isBlank he)).symm
  -- the blanks behind the word, the additional ones taken out
  have hbehind : ∀ {a' s' : Text}, (∀ e ∈ a', isBlank e = true) → (∀ e ∈ s', isBlank e = true) →
      z ++ d :: b = s' ++ c :: r →
      ∃ s'', a' ++ d :: b = s'' ++ c :: r ∧ s'' ≠ [] ∧ ∀ e ∈ s'', isBlank e = true := by
    intro a' s' ha' hs' hrest
    obtain ⟨s'', rfl, hb⟩ := eq_append_of_blanks hz hc hrest
    cases s'' with
    | nil => exact absurd (List.cons.inj hb).1 (hpath d hd)
    | cons e s'' =>
      refine ⟨a' ++ e :: s'', by rw [hb, List.append_assoc], by simp, ?_⟩
      exact List.forall_mem_append.mpr ⟨ha', (List.forall_mem_append.mp hs').2⟩
  rcases List.append_eq_append_iff.mp hsplit with ⟨word, hword, hrest⟩ | ⟨a', rfl, hrest⟩
  · cases word with
    | nil =>
      obtain ⟨s'', hb, hs''⟩ := hbehind (List.forall_mem_nil _) hs.2 hrest
      refine ⟨s'', c, r, ?_, hs'', hc⟩
      rw [← hb, hword]
      simp
    | cons f word =>
      -- the word would have a blank in it
      have hf : isBlank f = true := by
        cases z with
        | nil =>
          obtain rfl := (List.cons.inj hrest).1
          exact hd
        | cons e z =>
          obtain rfl := (List.cons.inj hrest).1
          exact hz e (by simp)
      have hmem : f ∈ namespaceWord := by
        rw [hword]
        simp
      have hcheck : namespaceWord.all (fun e => !isBlank e) = true := by
        decide
      have hno := List.all_eq_true.mp hcheck f hmem
      rw [hf] at hno
      cases hno
  · have hgoal : ∀ {s' : Text}, (∀ e ∈ a', isBlank e = true) → (∀ e ∈ s', isBlank e = true) →
        z ++ d :: b = s' ++ c :: r → ∃ s c r, (namespaceWord ++ a') ++ d :: b
          = namespaceWord ++ (s ++ c :: r) ∧ (s ≠ [] ∧ ∀ e ∈ s, isBlank e = true) ∧ isPathChar c = true := by
      intro s' ha' hs' hr
      obtain ⟨s'', hb, hs''⟩ := hbehind ha' hs' hr
      exact ⟨s'', c, r, by rw [List.append_assoc, hb], hs'', hc⟩
    rcases List.append_eq_append_iff.mp hrest with ⟨path, rfl, hr⟩ | ⟨s', rfl, hr⟩
    · cases path with
      | nil => exact hgoal (by simpa using hs.2) (List.forall_mem_nil _) hr.symm
      | cons e path =>
        obtain ⟨rfl, rfl⟩ := List.cons.inj hr
        exact ⟨s, c, path ++ d :: b, by simp, hs, hc⟩
    · obtain ⟨ha', hs'⟩ := List.forall_mem_append.mp hs.2
      exact hgoal ha' hs' hr

/-- **More blanks in a run of blanks** keep the first path. -/
theorem FirstPath.widen {a z b path : Text} {d : Char} (hz : ∀ e ∈ z, isBlank e = true)
    (hd : isBlank d = true) (hfirst : ¬ namespaceDeclaration.Begins none a (d :: b))
    (h : FirstPath none (a ++ d :: b) path) : FirstPath none (a ++ (z ++ d :: b)) path := by
  have hblank : ∀ {s : Text}, (∀ e ∈ s, isBlank e = true) → namespaceDeclaration.NoStart s :=
    fun hs => started_blank (by simp [started]) hs
  have hbehind : FirstPath (some d) b path :=
    (h.of_append hfirst).of_append (a := [d]) (hblank (by simpa using hd) _ _)
  have hrun : FirstPath (lastOr none a) ((z ++ [d]) ++ b) path := by
    refine FirstPath.append (hblank ?_ _ _) (by rwa [lastOr_append])
    exact List.forall_mem_append.mpr ⟨hz, by simpa using hd⟩
  rw [List.append_assoc] at hrun
  exact FirstPath.append (fun hbegins => hfirst (begins_of_widened hz hd hbegins)) hrun

/-- The imports take the place of a path: they are put outside of comments and literals, behind the word of a
namespace declaration that has no path up to there. -/
def ImportsSwallowed (code : Text) : Prop :=
  missingUsings (mask code) ≠ [] ∧ Outside code (usingsOffset (mask code))
    ∧ danglingNamespace.occursIn ((mask code).take (usingsOffset (mask code))) = true

instance (code : Text) : Decidable (ImportsSwallowed code) :=
  inferInstanceAs (Decidable (_ ∧ _ ∧ _))

/-- **The imports pass** keeps the first path, unless its directives take the place of one. -/
theorem firstPath_fixUsings {code path : Text} (h : FirstPath none (mask code) path) :
    (ImportsSwallowed code → FirstPath none (mask (fixUsings code).code) "using".toList)
      ∧ (¬ ImportsSwallowed code → FirstPath none (mask (fixUsings code).code) path) := by
  by_cases hmissing : missingUsings (mask code) = []
  · rw [fixUsings_of_missing_nil hmissing]
    exact ⟨fun hswallowed => absurd hmissing hswallowed.1, fun _ => h⟩
  · obtain ⟨a, b, hsplit, hoffset, ha, hfirst, hanchor⟩ := usingsOffset_spec (mask code)
    have htake : (mask code).take a.length = a := by rw [hsplit, List.take_left]
    rw [ImportsSwallowed, hoffset, htake, danglingNamespace_iff, and_iff_right hmissing]
    by_cases hout : Outside code a.length
    · have hmask := mask_fixUsings_outside hmissing hsplit hoffset ha hout
      rw [and_iff_right hout]
      refine ⟨fun hdangling => ?_, fun hdangling => ?_⟩
      · rw [hmask]
        exact firstPath_of_dangling (lineBreak_mem code) (missing_importable _) hmissing hfirst hdangling
      · exact h.after_insertion hsplit ha hmissing hfirst hdangling hmask
    · refine ⟨fun hswallowed => absurd hswallowed.1 hout, fun _ => ?_⟩
      obtain ⟨a', z, d, b', -, rfl, hafter, hd, hz⟩ :=
        mask_fixUsings_inside hmissing hsplit hoffset ha hanchor hout
      rw [hafter]
      rw [hsplit] at h
      exact h.widen hz hd hfirst

/-- A modernization puts its imports in the place of a path. -/
def Swallows (requested : Option String) (code : Text) : Prop :=
  ImportsSwallowed (fixNamespace (kindFor requested code) code).code

instance (requested : Option String) (code : Text) : Decidable (Swallows requested code) :=
  inferInstanceAs (Decidable (ImportsSwallowed _))

/-- **The first namespace of a modernized script** is that of its kind, unless the imports take its place. -/
theorem firstPath_run (requested : Option String) {code : Text}
    (hocc : namespaceDeclaration.Occurs none (mask code)) :
    ∃ path, FirstPath none (mask (run requested code).revision.code) path
      ∧ (Swallows requested code → path = "using".toList)
      ∧ (¬ Swallows requested code → path = (kindFor requested code).expectedNamespace.toList) := by
  have hcode : (run requested code).revision.code
      = (applyAll legacy (fixUsings (fixNamespace (kindFor requested code) code).code).code).code := by
    simp only [run_revision, Revision.andThen]
  obtain ⟨g, s, path, r, hdecl⟩ := exists_declares hocc
  have hplaced : FirstPath none (mask (fixNamespace (kindFor requested code) code).code)
      (kindFor requested code).expectedNamespace.toList :=
    ⟨g, s, r, declares_fixNamespace (kindFor requested code) hdecl⟩
  obtain ⟨hswallowed, hkept⟩ := firstPath_fixUsings hplaced
  rw [hcode]
  by_cases h : Swallows requested code
  · exact ⟨_, firstPath_applyAll (by simp [namespacePaths]) (hswallowed h), fun _ => rfl, fun hnot => absurd h hnot⟩
  · exact ⟨_, firstPath_applyAll (expectedNamespace_mem _) (hkept h), fun hyes => absurd hyes h, fun _ => rfl⟩

/-! ## Agreement -/

/-- **The modernization and the skeleton rule agree** on a base: the script is taken for a strategy if it is one,
the first namespace afterwards has the segment of the base, and the rule has nothing to say about it. -/
structure Agrees (code : Text) (base : String) : Prop where
  kind : (run none code).kind = .strategy ↔ base = "Strategy"
  segment : ∃ m, namespaceDeclaration.find? (mask (run none code).revision.code) = some m
    ∧ (Platform.nt8.namespaceFor base).toList
      ∈ Text.split '.' (m.part .name (mask (run none code).revision.code))
  packaging : Rule.Skeleton.packaging Platform.nt8 base (ofCode (run none code).revision.code) = []

theorem FirstPath.find? {code path : Text} (h : FirstPath none (mask code) path) :
    ∃ m, namespaceDeclaration.find? (mask code) = some m ∧ m.part .name (mask code) = path
      ∧ m.part .name code = path := by
  obtain ⟨g, s, r, hdecl⟩ := h
  obtain ⟨m, hm, -, hspan⟩ := hdecl.find?
  have hsplit : mask code = (g ++ (namespaceWord ++ s)) ++ path ++ r := by
    rw [hdecl.split]
    simp
  refine ⟨m, hm, ?_, ?_⟩
  · rw [Match.part, hspan, hsplit, within, slice, ← List.length_append, List.take_left, List.drop_left]
  · rw [Match.part, hspan]
    exact slice_of_visible hsplit fun c hc => (visible_of_isPathChar (hdecl.path.2 c hc)).1

/-- The rule has nothing to say about a first namespace that has the segment. -/
theorem packaging_of_firstPath {code path : Text} (h : FirstPath none (mask code) path) {base : String}
    (hsegment : (Platform.nt8.namespaceFor base).toList ∈ Text.split '.' path) :
    Rule.Skeleton.packaging Platform.nt8 base (ofCode code) = [] := by
  obtain ⟨m, hm, -, hcode⟩ := h.find?
  have hfind : namespaceDeclaration.find? (ofCode code).masked = some m := hm
  have hpart : m.part .name (ofCode code).code = path := hcode
  rw [Rule.Skeleton.packaging, hfind]
  simp only [hpart]
  rw [if_pos]
  simpa using Or.inr hsegment

theorem kind_run (requested : Option String) (code : Text) :
    (run requested code).kind = kindFor requested code :=
  rfl

/-- The two agree as they do on the first path. -/
theorem agrees_iff_firstPath {code path : Text} {base : String}
    (h : FirstPath none (mask (run none code).revision.code) path) :
    Agrees code base ↔ (kindFor none code = .strategy ↔ base = "Strategy")
      ∧ (Platform.nt8.namespaceFor base).toList ∈ Text.split '.' path := by
  obtain ⟨m, hm, hmasked, -⟩ := h.find?
  rw [← kind_run]
  constructor
  · rintro ⟨hkind, ⟨m', hm', hsegment⟩, -⟩
    obtain rfl := Option.some.inj (hm'.symm.trans hm)
    rw [hmasked] at hsegment
    exact ⟨hkind, hsegment⟩
  · rintro ⟨hkind, hsegment⟩
    exact ⟨hkind, ⟨m, hm, by rwa [hmasked]⟩, packaging_of_firstPath h hsegment⟩

/-- The segment of a base, and the namespaces that have it. -/
theorem segment_checked :
    (∀ base ∈ baseNames, (Platform.nt8.namespaceFor base).toList ∉ Text.split '.' "using".toList)
    ∧ (Platform.nt8.namespaceFor "Indicator").toList
      ∈ Text.split '.' ScriptKind.indicator.expectedNamespace.toList
    ∧ (Platform.nt8.namespaceFor "Strategy").toList
      ∈ Text.split '.' ScriptKind.strategy.expectedNamespace.toList := by
  decide

/-- **Agreement.** For a script that declares a namespace and a class, the modernization and the skeleton rule
agree on the base of the class exactly if the class derives from `Strategy` or nothing looks as if it did, and
the imports do not take the place of a path. -/
theorem agrees_iff {code : Text} {m : Match} (hclass : m ∈ classDeclaration.findAll (mask code))
    (hnamespace : namespaceDeclaration.occursIn (mask code) = true) :
    Agrees code (String.ofList (m.part .kind (mask code)))
      ↔ (m.part .kind (mask code) = "Strategy".toList
          ∨ ScriptKind.strategyBase.occursIn (mask code) = false)
        ∧ ¬ Swallows none code := by
  obtain ⟨hchecked, hindicators, hstrategies⟩ := segment_checked
  obtain ⟨path, hpath, hswallowed, hkept⟩ := firstPath_run none (occursIn_iff.mp hnamespace)
  have hkind : kindFor none code = .strategy ↔ ScriptKind.strategyBase.Occurs none (mask code) :=
    kindFor_eq_strategy_iff rfl
  have hmem : String.ofList (m.part .kind (mask code)) ∈ baseNames := by
    rcases (base_of_mem_findAll hclass).1 with hbase | hbase <;> rw [hbase] <;> decide
  rw [agrees_iff_firstPath hpath]
  by_cases hswallows : Swallows none code
  · rw [hswallowed hswallows]
    exact iff_of_false (fun hagrees => hchecked _ hmem hagrees.2) (fun hright => hright.2 hswallows)
  · rw [hkept hswallows, and_iff_left hswallows]
    rcases (base_of_mem_findAll hclass).1 with hbase | hbase
    · -- an indicator: nothing else may look like a strategy
      rw [hbase]
      by_cases hocc : ScriptKind.strategyBase.Occurs none (mask code)
      · refine iff_of_false (fun hagrees => ?_) (fun hright => ?_)
        · exact absurd (hagrees.1.mp (hkind.mpr hocc)) (by decide)
        · rcases hright with hright | hright
          · exact absurd hright (by decide)
          · rw [occursIn_iff.mpr hocc] at hright
            cases hright
      · have hindicator : kindFor none code = .indicator := by
          cases hk : kindFor none code with
          | indicator => rfl
          | strategy => exact absurd (hkind.mp hk) hocc
        have hnot : ScriptKind.strategyBase.occursIn (mask code) = false := by
          rw [Bool.eq_false_iff, ne_eq, occursIn_iff]
          exact hocc
        refine iff_of_true ⟨?_, ?_⟩ (.inr hnot)
        · exact iff_of_false (fun hk => hocc (hkind.mp hk)) (by decide)
        · rw [hindicator]
          exact hindicators
    · have hocc := occurs_strategyBase_of_base hclass hbase
      have hstrategy : kindFor none code = .strategy := hkind.mpr hocc
      rw [hbase]
      refine iff_of_true ⟨?_, ?_⟩ (.inl rfl)
      · exact iff_of_true (hkind.mpr hocc) (by decide)
      · rw [hstrategy]
        exact hstrategies

/-- An indicator with a conditional expression whose last part is called like the base of a strategy. -/
def conditional : Text :=
  "namespace N \x7b public class A : Indicator \x7b object o = b ? null : Strategy; \x7d \x7d".toList

theorem agrees_iff_conditional :
    ∃ m, m ∈ classDeclaration.findAll (mask conditional)
      ∧ namespaceDeclaration.occursIn (mask conditional) = true
      ∧ (Agrees conditional (String.ofList (m.part .kind (mask conditional)))
        ↔ (m.part .kind (mask conditional) = "Strategy".toList
            ∨ ScriptKind.strategyBase.occursIn (mask conditional) = false)
          ∧ ¬ Swallows none conditional) := by
  have hnamespace : namespaceDeclaration.occursIn (mask conditional) = true := by
    decide +kernel
  have hlength : (classDeclaration.findAll (mask conditional)).length = 1 := by
    decide +kernel
  obtain ⟨m, hm⟩ := List.length_eq_one_iff.mp hlength
  have hclass : m ∈ classDeclaration.findAll (mask conditional) := by
    rw [hm]
    exact List.mem_singleton_self m
  exact ⟨m, hclass, hnamespace, agrees_iff hclass hnamespace⟩

/-- The one class of the script is an indicator, and the script is taken for a strategy. -/
theorem not_agrees_conditional :
    ∃ m, classDeclaration.findAll (mask conditional) = [m]
      ∧ namespaceDeclaration.occursIn (mask conditional) = true
      ∧ ¬ Agrees conditional (String.ofList (m.part .kind (mask conditional))) := by
  have hlength : (classDeclaration.findAll (mask conditional)).length = 1 := by
    decide +kernel
  have hbase : ∀ m ∈ classDeclaration.findAll (mask conditional),
      String.ofList (m.part .kind (mask conditional)) ≠ "Strategy" := by
    decide +kernel
  have hkind : (run none conditional).kind = .strategy := by
    decide +kernel
  obtain ⟨m, hm⟩ := List.length_eq_one_iff.mp hlength
  rw [hm, List.forall_mem_singleton] at hbase
  exact ⟨m, hm, by decide +kernel, fun hagrees => hbase (hagrees.kind.mp hkind)⟩

end ChartLint.Modernize
