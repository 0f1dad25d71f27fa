import ChartLint.Proofs.Modernize.Legacy
import ChartLint.Proofs.Pattern.Preferred
import ChartLint.Proofs.Text.Edits

/-!
# The namespace pass

A script has a first namespace declaration or none (`Declares`). The namespace pass gives it the
path of the script's kind (`declares_fixNamespace`), and then leaves it alone
(`fixNamespace_of_firstPath`). The other passes keep it: what starts in front of a piece does not
reach into the piece, as long as the piece starts with a letter that no namespace declaration can go
on with (`begins_namespace_congr`).
-/

namespace ChartLint.Modernize

open Pattern Lexing Text Source

/-! ## Declarations -/

/-- The word that opens a namespace declaration. -/
def namespaceWord : Text :=
  "namespace".toList

theorem accepts_namespaceDeclaration {x : Option Char} {w r : Text} :
    namespaceDeclaration.Accepts x w r ↔ x.any isWord = false ∧ ∃ s path,
      w = namespaceWord ++ (s ++ path) ∧ (s ≠ [] ∧ ∀ c ∈ s, isBlank c = true)
        ∧ path ≠ [] ∧ ∀ c ∈ path, isPathChar c = true := by
  simp only [namespaceDeclaration, accepts_append_assoc]
  simp only [accepts_append, accepts_text, gap, accepts_many1, Accepts]
  constructor
  · rintro ⟨_, _, rfl, ⟨rfl, hedge⟩, _, _, rfl, rfl, s, path, rfl, hs, hpath⟩
    have hword : x.any isWord = false := by
      change (x.any isWord != isWord 'n') = true at hedge
      rw [show isWord 'n' = true by decide] at hedge
      simpa using hedge
    exact ⟨hword, s, path, rfl, hs, hpath⟩
  · rintro ⟨hword, s, path, rfl, hs, hpath⟩
    refine ⟨[], _, rfl, ⟨rfl, ?_⟩, namespaceWord, _, rfl, rfl, s, path, rfl, hs, hpath⟩
    change (x.any isWord != isWord 'n') = true
    rw [show isWord 'n' = true by decide, hword]
    rfl

/-- Where a namespace declaration starts. -/
theorem startsAt_namespaceDeclaration {x : Option Char} {t : Text} :
    namespaceDeclaration.StartsAt x t ↔ x.any isWord = false ∧ ∃ s c r,
      t = namespaceWord ++ (s ++ c :: r) ∧ (s ≠ [] ∧ ∀ b ∈ s, isBlank b = true)
        ∧ isPathChar c = true := by
  constructor
  · rintro ⟨w, r, rfl, hacc⟩
    obtain ⟨hword, s, path, rfl, hs, hne, hpath⟩ := accepts_namespaceDeclaration.mp hacc
    obtain ⟨c, path', rfl⟩ := List.exists_cons_of_ne_nil hne
    exact ⟨hword, s, c, path' ++ r, by simp, hs, hpath c (by simp)⟩
  · rintro ⟨hword, s, c, r, rfl, hs, hc⟩
    refine ⟨namespaceWord ++ (s ++ [c]), r, by simp, accepts_namespaceDeclaration.mpr ?_⟩
    exact ⟨hword, s, [c], rfl, hs, by simp, by simpa using hc⟩

/-- A letter with which no namespace declaration goes on, once it has started. -/
def isForeign (c : Char) : Bool :=
  !namespaceWord.tail.contains c && !isBlank c

/-- **A declaration in front of a foreign letter** covers it with its path or not at all. -/
theorem cut_namespace {a s t r : Text} {c d : Char} (ha : a ≠ []) (hd : isForeign d = true)
    (hs : ∀ b ∈ s, isBlank b = true) (h : a ++ d :: t = namespaceWord ++ (s ++ c :: r)) :
    (a = namespaceWord ++ s ∧ c = d)
      ∨ ∃ r', a = namespaceWord ++ (s ++ c :: r') ∧ r = r' ++ d :: t := by
  simp only [isForeign, Bool.and_eq_true, Bool.not_eq_true', List.contains_eq_mem,
    decide_eq_false_iff_not] at hd
  have hbehind : ∀ a', s ++ c :: r = a' ++ d :: t →
      (a' = s ∧ c = d) ∨ ∃ r', a' = s ++ c :: r' ∧ r = r' ++ d :: t := by
    intro a' hrest
    rcases List.append_eq_append_iff.mp hrest with ⟨a'', rfl, hr⟩ | ⟨s', rfl, hr⟩
    · cases a'' with
      | nil =>
        rw [List.nil_append, List.cons.injEq] at hr
        exact .inl ⟨by simp, hr.1⟩
      | cons e r' =>
        rw [List.cons_append, List.cons.injEq] at hr
        obtain ⟨rfl, hr⟩ := hr
        exact .inr ⟨r', rfl, hr⟩
    · cases s' with
      | nil =>
        rw [List.nil_append, List.cons.injEq] at hr
        exact .inl ⟨by simp, hr.1.symm⟩
      | cons e s' =>
        rw [List.cons_append, List.cons.injEq] at hr
        have hblank := hs e (by simp)
        rw [← hr.1, hd.2] at hblank
        cases hblank
  rcases List.append_eq_append_iff.mp h with ⟨word', hword, hrest⟩ | ⟨a', rfl, hrest⟩
  · cases word' with
    | nil =>
      rw [List.append_nil] at hword
      rw [List.nil_append] at hrest
      rcases hbehind [] hrest.symm with ⟨rfl, hc⟩ | ⟨r', hnil, -⟩
      · exact .inl ⟨by rw [hword, List.append_nil], hc⟩
      · simp at hnil
    | cons f word' =>
      -- the letter would lie in the word
      refine absurd ?_ hd.1
      obtain ⟨e, a', rfl⟩ := List.exists_cons_of_ne_nil ha
      rw [List.cons_append, List.cons.injEq] at hrest
      rw [hword, hrest.1]
      simp
  · rcases hbehind a' hrest with ⟨rfl, hc⟩ | ⟨r', rfl, hr⟩
    · exact .inl ⟨rfl, hc⟩
    · exact .inr ⟨r', rfl, hr⟩

/-- Declarations that start in front of a foreign letter do not depend on what follows it. -/
theorem begins_namespace_congr {d : Char} (hd : isForeign d = true) {x : Option Char}
    {a t : Text} (t' : Text) (h : namespaceDeclaration.Begins x a (d :: t)) :
    namespaceDeclaration.Begins x a (d :: t') := by
  obtain ⟨a₁, a₂, rfl, hne, hstart⟩ := h
  obtain ⟨hword, s, c, r, hsplit, hs, hc⟩ := startsAt_namespaceDeclaration.mp hstart
  refine ⟨a₁, a₂, rfl, hne, startsAt_namespaceDeclaration.mpr ⟨hword, ?_⟩⟩
  rcases cut_namespace hne hd hs.2 hsplit with ⟨rfl, rfl⟩ | ⟨r', rfl, -⟩
  · exact ⟨s, c, t', by simp, hs, hc⟩
  · exact ⟨s, c, r' ++ d :: t', by simp, hs, hc⟩

/-- The text ends with a namespace declaration that lacks its path. -/
def Dangling (x : Option Char) (a : Text) : Prop :=
  ∃ a₀ s, a = a₀ ++ (namespaceWord ++ s) ∧ (lastOr x a₀).any isWord = false
    ∧ s ≠ [] ∧ ∀ c ∈ s, isBlank c = true

/-- A foreign letter completes only a dangling declaration. -/
theorem begins_namespace_foreign {d : Char} (hd : isForeign d = true) {x : Option Char}
    {a t : Text} (h : namespaceDeclaration.Begins x a (d :: t)) (b : Text) :
    Dangling x a ∨ namespaceDeclaration.Begins x a b := by
  obtain ⟨a₁, a₂, rfl, hne, hstart⟩ := h
  obtain ⟨hword, s, c, r, hsplit, hs, hc⟩ := startsAt_namespaceDeclaration.mp hstart
  rcases cut_namespace hne hd hs.2 hsplit with ⟨rfl, rfl⟩ | ⟨r', rfl, -⟩
  · exact .inl ⟨a₁, s, rfl, hword, hs⟩
  · refine .inr (⟨a₁, _, rfl, hne, startsAt_namespaceDeclaration.mpr ⟨hword, ?_⟩⟩)
    exact ⟨s, c, r' ++ b, by simp, hs, hc⟩

/-! ## The first declaration -/

/-- The first namespace declaration of a text stands between `g` and `r`, with the blanks `s` in
front of its path. -/
structure Declares (x : Option Char) (t g s path r : Text) : Prop where
  split : t = g ++ (namespaceWord ++ (s ++ (path ++ r)))
  first : ¬ namespaceDeclaration.Begins x g (namespaceWord ++ (s ++ (path ++ r)))
  front : (lastOr x g).any isWord = false
  gap : s ≠ [] ∧ ∀ c ∈ s, isBlank c = true
  path : path ≠ [] ∧ ∀ c ∈ path, isPathChar c = true
  stop : r.head?.any isPathChar = false

/-- The text cut in front of the path and behind it. -/
theorem Declares.cut {x : Option Char} {t g s path r : Text} (h : Declares x t g s path r) :
    t = (g ++ (namespaceWord ++ s)) ++ path ++ r := by
  rw [h.split]
  simp only [List.append_assoc]

/-- The path of the first namespace declaration. -/
def FirstPath (x : Option Char) (t path : Text) : Prop :=
  ∃ g s r, Declares x t g s path r

theorem isPathChar_of_isBlank {c : Char} (hc : isBlank c = true) : isPathChar c = false := by
  have hdot : (c == '.') = false :=
    forall_of_isBlank (P := fun c => (c == '.') = false) (by decide) hc
  rw [isPathChar, isWord_of_isBlank hc, hdot]
  rfl

theorem any_head?_dropWhile (cls : Char → Bool) (t : Text) :
    (t.dropWhile cls).head?.any cls = false := by
  cases h : t.dropWhile cls with
  | nil => rfl
  | cons c r =>
    have hc := List.head?_dropWhile_not cls t
    rw [h] at hc
    simpa using hc

/-- A text in which a declaration starts has a first one. -/
theorem exists_declares {x : Option Char} {t : Text} (h : namespaceDeclaration.Occurs x t) :
    ∃ g s path r, Declares x t g s path r := by
  obtain ⟨g, t', rfl, hfirst, hstart⟩ := h.first
  obtain ⟨hword, s, c, r, rfl, hs, hc⟩ := startsAt_namespaceDeclaration.mp hstart
  have hsplit : c :: r = (c :: r.takeWhile isPathChar) ++ r.dropWhile isPathChar := by
    rw [List.cons_append, List.takeWhile_append_dropWhile]
  rw [hsplit] at hfirst ⊢
  refine ⟨g, s, _, _, ⟨rfl, hfirst, hword, hs, ⟨by simp, ?_⟩, ?_⟩⟩
  · intro d hd
    rcases List.mem_cons.mp hd with rfl | hd
    · exact hc
    · exact List.all_eq_true.mp List.all_takeWhile d hd
  · exact any_head?_dropWhile isPathChar r

/-- The search finds the first declaration and keeps its path. -/
theorem Declares.find? {t g s path r : Text} (h : Declares none t g s path r) :
    ∃ m, namespaceDeclaration.find? t = some m ∧ m.start = g.length
      ∧ m.span .name = ⟨(g ++ (namespaceWord ++ s)).length,
        (g ++ (namespaceWord ++ s)).length + path.length⟩ := by
  obtain ⟨rfl, hfirst, hfront, hgap, hpath, hstop⟩ := h
  have hedge : ((lastOr none g).any isWord
      != (namespaceWord ++ (s ++ (path ++ r))).head?.any isWord) = true := by
    rw [hfront]
    change (false != isWord 'n') = true
    decide
  have hblank : (path ++ r).head?.any isBlank = false := by
    obtain ⟨c, path', rfl⟩ := List.exists_cons_of_ne_nil hpath.1
    have hc := hpath.2 c (by simp)
    change isBlank c = false
    cases hcb : isBlank c with
    | false => rfl
    | true =>
      rw [isPathChar_of_isBlank hcb] at hc
      cases hc
  have hprefers := (((prefers_edge g.length hedge).append
    (prefers_literal namespaceWord _ _ (s ++ (path ++ r)))).append
      (prefers_many1 hgap.1 hgap.2 hblank _ _)).append
        ((prefers_many1 hpath.1 hpath.2 hstop _ _).keep .name)
  have hmatch := hprefers.matchAt?
  refine ⟨_, findFrom?_eq_some.mpr ⟨g, _, rfl, hfirst, by rw [Nat.zero_add]; exact hmatch⟩, rfl, ?_⟩
  simp [Match.span, Nat.add_assoc]

theorem FirstPath.occurs {x : Option Char} {t path : Text} (h : FirstPath x t path) :
    namespaceDeclaration.Occurs x t := by
  obtain ⟨g, s, r, h⟩ := h
  obtain ⟨c, path', rfl⟩ := List.exists_cons_of_ne_nil h.path.1
  refine ⟨g, _, h.split, startsAt_namespaceDeclaration.mpr ⟨h.front, ?_⟩⟩
  exact ⟨s, c, path' ++ r, rfl, h.gap, h.path.2 c (by simp)⟩

/-! ## The pass -/

/-- Path characters are visible, and none of them takes part in the opening of a comment or a
literal. -/
theorem visible_of_isPathChar {c : Char} (hc : isPathChar c = true) :
    isVisible c = true ∧ isNeutral c = true := by
  have hne : ∀ d, isPathChar d = false → c ≠ d := fun _ => ne_of_class hc
  have hspace := hne ' ' (by decide)
  have hfeed := hne '\n' (by decide)
  have hreturn := hne '\r' (by decide)
  have hslash := hne '/' (by decide)
  have hstar := hne '*' (by decide)
  have hquote := hne '"' (by decide)
  have hat := hne '@' (by decide)
  have hdollar := hne '$' (by decide)
  simp [isVisible, isNeutral, isTerminator, *]

/-- A path starts and ends with a path character. -/
theorem exists_ends_of_isPathChar {path : Text} (h : path ≠ [] ∧ ∀ c ∈ path, isPathChar c = true) :
    ∃ c d, path.head? = some c ∧ path.getLast? = some d ∧ isPathChar c = true ∧ isPathChar d = true := by
  obtain ⟨c, tail, hpath⟩ := List.exists_cons_of_ne_nil h.1
  obtain ⟨front, d, hpath'⟩ := (List.eq_nil_or_concat path).resolve_left h.1
  rw [List.concat_eq_append] at hpath'
  refine ⟨c, d, by rw [hpath, List.head?_cons], by rw [hpath', List.getLast?_concat], h.2 c ?_, h.2 d ?_⟩
  · simp [hpath]
  · simp [hpath']

/-- The path of a kind is a path, and opens nothing. -/
theorem expectedNamespace_path (kind : ScriptKind) :
    (kind.expectedNamespace.toList ≠ []
      ∧ ∀ c ∈ kind.expectedNamespace.toList, isPathChar c = true)
      ∧ ∀ c ∈ kind.expectedNamespace.toList, isInert c = true := by
  have hcheck : kind.expectedNamespace.toList ≠ []
      ∧ kind.expectedNamespace.toList.all isPathChar = true
      ∧ kind.expectedNamespace.toList.all isInert = true := by
    cases kind <;> decide
  exact ⟨⟨hcheck.1, List.all_eq_true.mp hcheck.2.1⟩, List.all_eq_true.mp hcheck.2.2⟩

theorem fixNamespace_of_not_occurs (kind : ScriptKind) {code : Text}
    (h : ¬ namespaceDeclaration.Occurs none (mask code)) :
    fixNamespace kind code = ⟨code, []⟩ := by
  have hnone : namespaceDeclaration.find? (mask code) = none := by
    rw [← Option.not_isSome_iff_eq_none]
    exact fun hsome => h (occursIn_iff.mp hsome)
  rw [fixNamespace, hnone]

/-- What the pass does to the first declaration. -/
theorem fixNamespace_of_declares (kind : ScriptKind) {code g s path r : Text}
    (h : Declares none (mask code) g s path r) :
    fixNamespace kind code =
      if path = kind.expectedNamespace.toList then ⟨code, []⟩
      else ⟨Text.splice code (g ++ (namespaceWord ++ s)).length
          ((g ++ (namespaceWord ++ s)).length + path.length) kind.expectedNamespace.toList,
        [⟨"Namespace corrected", String.ofList path, kind.expectedNamespace⟩]⟩ := by
  obtain ⟨m, hm, -, hspan⟩ := h.find?
  have hcurrent : code.within (m.span .name) = path := by
    rw [hspan]
    exact slice_of_visible h.cut (fun c hc => (visible_of_isPathChar (h.path.2 c hc)).1)
  simp only [fixNamespace, hm, hcurrent]
  rw [hspan]

/-- **The pass gives the first declaration the path of the kind.** -/
theorem declares_fixNamespace (kind : ScriptKind) {code g s path r : Text}
    (h : Declares none (mask code) g s path r) :
    Declares none (mask (fixNamespace kind code).code) g s kind.expectedNamespace.toList r := by
  obtain ⟨hexpected, hinert⟩ := expectedNamespace_path kind
  rw [fixNamespace_of_declares kind h]
  split
  · next heq =>
    rw [← heq]
    exact h
  · obtain ⟨c, d, hfirst, hlast, hc, hd⟩ := exists_ends_of_isPathChar h.path
    obtain ⟨e, -, hnew, -, he, -⟩ := exists_ends_of_isPathChar hexpected
    have hsplice := mask_splice h.cut hfirst (visible_of_isPathChar hc).1 (visible_of_isPathChar hc).2
      hlast (visible_of_isPathChar hd).1 hnew (visible_of_isPathChar he).2 hinert
    refine ⟨by rw [hsplice]; simp, ?_, h.front, h.gap, hexpected, h.stop⟩
    exact fun hbegins => h.first (begins_namespace_congr (by decide) _ hbegins)

theorem fixNamespace_of_firstPath (kind : ScriptKind) {code : Text}
    (h : FirstPath none (mask code) kind.expectedNamespace.toList) :
    fixNamespace kind code = ⟨code, []⟩ := by
  obtain ⟨g, s, r, h⟩ := h
  rw [fixNamespace_of_declares kind h, if_pos rfl]

theorem changes_fixNamespace (kind : ScriptKind) {code path : Text}
    (h : FirstPath none (mask code) path) (hne : path ≠ kind.expectedNamespace.toList) :
    (fixNamespace kind code).changes ≠ [] := by
  obtain ⟨g, s, r, h⟩ := h
  rw [fixNamespace_of_declares kind h, if_neg hne]
  simp

/-- The pass has nothing to do if the first declaration has the path already. -/
theorem fixNamespace_of_path (kind : ScriptKind) {code : Text}
    (h : namespaceDeclaration.Occurs none (mask code) →
      FirstPath none (mask code) kind.expectedNamespace.toList) :
    fixNamespace kind code = ⟨code, []⟩ := by
  by_cases hocc : namespaceDeclaration.Occurs none (mask code)
  · exact fixNamespace_of_firstPath kind (h hocc)
  · exact fixNamespace_of_not_occurs kind hocc

theorem not_mem_of_isPathChar {path : Text} (h : ∀ c ∈ path, isPathChar c = true) {c : Char}
    (hc : isPathChar c = false) : c ∉ path := by
  intro hmem
  rw [h c hmem] at hc
  cases hc

/-- The namespace pass keeps the number of lines. -/
theorem count_fixNamespace (kind : ScriptKind) (code : Text) :
    (fixNamespace kind code).code.count '\n' = code.count '\n' := by
  by_cases hocc : namespaceDeclaration.Occurs none (mask code)
  · obtain ⟨g, s, path, r, hdecl⟩ := exists_declares hocc
    rw [fixNamespace_of_declares kind hdecl]
    split
    · rfl
    · have hslice := slice_of_visible hdecl.cut
        (fun c hc => (visible_of_isPathChar (hdecl.path.2 c hc)).1)
      have hcount := count_splice '\n' code (Nat.le_add_right (g ++ (namespaceWord ++ s)).length
        path.length) kind.expectedNamespace.toList
      rw [hslice, List.count_eq_zero_of_not_mem (not_mem_of_isPathChar hdecl.path.2 (by decide)),
        List.count_eq_zero_of_not_mem
          (not_mem_of_isPathChar (expectedNamespace_path kind).1.2 (by decide))] at hcount
      exact hcount
  · rw [fixNamespace_of_not_occurs kind hocc]

/-! ## The other passes keep it -/

theorem begins_congr_front {p : Pattern} (hp : p.isLocal = true) {x x' : Option Char}
    (hx : SameFront x x') {a b : Text} (h : p.Begins x a b) : p.Begins x' a b := by
  obtain ⟨a₁, a₂, rfl, hne, w, r, hsplit, hacc⟩ := h
  exact ⟨a₁, a₂, rfl, hne, w, r, hsplit, accepts_congr_left hp (hx.lastOr a₁) hacc⟩

theorem FirstPath.congr_front {x x' : Option Char} {t path : Text} (h : FirstPath x t path)
    (hx : SameFront x x') : FirstPath x' t path := by
  obtain ⟨g, s, r, h⟩ := h
  refine ⟨g, s, r, h.split, ?_, ?_, h.gap, h.path, h.stop⟩
  · exact fun hbegins => h.first (begins_congr_front (by decide) hx.symm hbegins)
  · rw [← (hx.lastOr g).any (by decide)]
    exact h.front

/-- Text without declarations in front does not change the first path. -/
theorem FirstPath.append {x : Option Char} {a b path : Text}
    (ha : ¬ namespaceDeclaration.Begins x a b) (h : FirstPath (lastOr x a) b path) :
    FirstPath x (a ++ b) path := by
  obtain ⟨g, s, r, h⟩ := h
  refine ⟨a ++ g, s, r, by rw [h.split]; simp, ?_, by rw [lastOr_append]; exact h.front, h.gap,
    h.path, h.stop⟩
  rw [begins_append, ← h.split]
  exact not_or.mpr ⟨ha, h.first⟩

/-- A first path behind a text without declarations is the first path of what follows it. -/
theorem FirstPath.of_append {x : Option Char} {a b path : Text}
    (ha : ¬ namespaceDeclaration.Begins x a b) (h : FirstPath x (a ++ b) path) :
    FirstPath (lastOr x a) b path := by
  obtain ⟨g, s, r, h⟩ := h
  rcases List.append_eq_append_iff.mp h.split with ⟨g', rfl, hb⟩ | ⟨a', rfl, hrest⟩
  · refine ⟨g', s, r, hb, ?_, by rw [← lastOr_append]; exact h.front, h.gap, h.path, h.stop⟩
    intro hbegins
    exact h.first ((begins_append _ _ _ _ _).mpr (.inr hbegins))
  · cases a' with
    | nil =>
      rw [List.nil_append] at hrest
      rw [List.append_nil]
      exact ⟨[], s, r, hrest.symm, by simp, h.front, h.gap, h.path, h.stop⟩
    | cons c a' =>
      refine absurd (⟨g, c :: a', rfl, by simp, ?_⟩) ha
      rw [← hrest]
      obtain ⟨d, path', hpath⟩ := List.exists_cons_of_ne_nil h.path.1
      refine startsAt_namespaceDeclaration.mpr ⟨h.front, s, d, path' ++ r, ?_, h.gap, ?_⟩
      · rw [hpath]
        rfl
      · exact h.path.2 d (by simp [hpath])

/-- **A change behind the first declaration** does not touch it, if it begins with a foreign letter
that the path does not have. -/
theorem FirstPath.congr_tail {d : Char} (hd : isForeign d = true) {x : Option Char}
    {a t path : Text} (hpath : d ∉ path) (hbegins : namespaceDeclaration.Begins x a (d :: t))
    (h : FirstPath x (a ++ d :: t) path) (t' : Text) : FirstPath x (a ++ d :: t') path := by
  obtain ⟨g, s, r, h⟩ := h
  -- a declaration begins in `a`, so the first one does
  obtain ⟨a', rfl, hne⟩ : ∃ a', a = g ++ a' ∧ a' ≠ [] := by
    rcases List.append_eq_append_iff.mp h.split with ⟨g', rfl, hrest⟩ | ⟨a', rfl, hrest⟩
    · refine absurd ?_ h.first
      rw [begins_append, ← hrest]
      exact .inl hbegins
    · refine ⟨a', rfl, ?_⟩
      rintro rfl
      refine h.first ?_
      rw [List.append_nil] at hbegins
      rw [hrest]
      exact hbegins
  have hrest : a' ++ d :: t = namespaceWord ++ (s ++ (path ++ r)) := by
    have hsplit := h.split
    rwa [List.append_assoc, List.append_cancel_left_eq] at hsplit
  obtain ⟨c, path', rfl⟩ := List.exists_cons_of_ne_nil h.path.1
  rcases cut_namespace hne hd h.gap.2 (by rw [hrest]; rfl) with ⟨-, hc⟩ | ⟨r', rfl, hr⟩
  · exact absurd (by simp [hc]) hpath
  · -- the letter lies behind the path, so the path ends in front of it
    rcases List.append_eq_append_iff.mp hr with ⟨r'', rfl, hr''⟩ | ⟨p', hp', hr''⟩
    · refine ⟨g, s, r'' ++ d :: t', by simp, ?_, h.front, h.gap, h.path, ?_⟩
      · exact fun hb => h.first (begins_namespace_congr (by decide) _ hb)
      · have hstop := h.stop
        rw [hr''] at hstop
        cases r'' with
        | nil => exact hstop
        | cons e r'' => exact hstop
    · cases p' with
      | nil =>
        rw [List.append_nil] at hp'
        rw [List.nil_append] at hr''
        have hstop := h.stop
        rw [← hr''] at hstop
        subst hp'
        exact ⟨g, s, d :: t', by simp, fun hb => h.first
          (begins_namespace_congr (by decide) _ hb), h.front, h.gap, h.path, hstop⟩
      | cons e p' =>
        rw [List.cons_append, List.cons.injEq] at hr''
        refine absurd ?_ hpath
        rw [hp', hr''.1]
        simp

/-- The replaced constructs start with a foreign letter. -/
theorem legacy_foreign {rep : Replacement} (hrep : rep ∈ legacy) {d : Char}
    (hd : rep.new.toList.head? = some d) : isForeign d = true := by
  have hcheck : ∀ rep ∈ legacy, rep.new.toList.head?.all isForeign = true := by
    decide +kernel
  have hall := hcheck rep hrep
  rwa [hd] at hall

/-- What starts in front of a new text starts in front of the old one as well. -/
theorem begins_namespace_old {rep : Replacement} (hrep : rep ∈ legacy) {x y : Option Char}
    {g w r r' : Text} (covers : rep.shape.Accepts y w r)
    (h : namespaceDeclaration.Begins x g (rep.new.toList ++ r')) :
    namespaceDeclaration.Begins x g (w ++ r) := by
  obtain ⟨d, w', new', rfl, hnew⟩ := (fits_of_mem_legacy hrep).exists_head covers
  have hd : isForeign d = true := legacy_foreign hrep (by rw [hnew]; rfl)
  rw [hnew] at h
  exact begins_namespace_congr hd _ h

/-- **A replacement keeps the first path**, if the path does not have the letter with which the
replaced construct starts. -/
theorem Replaced.firstPath {rep : Replacement} (hrep : rep ∈ legacy) {x : Option Char}
    {t t' path : Text} (hpath : ∀ d, rep.new.toList.head? = some d → d ∉ path)
    (h : Replaced rep.shape rep.new.toList x t t') (hfirst : FirstPath x t path) :
    FirstPath x t' path := by
  have hfits := fits_of_mem_legacy hrep
  induction h with
  | done none => exact hfirst
  | @next x g w r r' before covers others ih =>
    by_cases hbegins : namespaceDeclaration.Begins x g (w ++ r)
    · obtain ⟨d, w', new', rfl, hnew⟩ := hfits.exists_head covers
      have hhead : rep.new.toList.head? = some d := by rw [hnew]; rfl
      rw [hnew]
      exact hfirst.congr_tail (legacy_foreign hrep hhead) (hpath d hhead) hbegins _
    · have hlater : FirstPath (lastOr (lastOr x g) w) r path :=
        (hfirst.of_append hbegins).of_append (started_old hrep (by simp [started]) covers _ _)
      rw [hfits.lastOr_eq covers] at ih hlater
      have hnone : ¬ namespaceDeclaration.Begins x g (rep.new.toList ++ r') :=
        fun hb => hbegins (begins_namespace_old hrep covers hb)
      exact FirstPath.append hnone
        (FirstPath.append (started_new hrep (by simp [started]) _ _) (ih hlater))

/-- A replacement adds no namespace declaration. -/
theorem Replaced.not_occurs_namespace {rep : Replacement} (hrep : rep ∈ legacy) {x : Option Char}
    {t t' : Text} (h : Replaced rep.shape rep.new.toList x t t')
    (hno : ¬ namespaceDeclaration.Occurs x t) : ¬ namespaceDeclaration.Occurs x t' := by
  have hfits := fits_of_mem_legacy hrep
  induction h with
  | done none => exact hno
  | @next x g w r r' before covers others ih =>
    rw [occurs_append, occurs_append] at hno ⊢
    rintro (hbegins | hbegins | hocc)
    · exact hno (.inl (begins_namespace_old hrep covers hbegins))
    · exact started_new hrep (by simp [started]) _ _ hbegins
    · rw [← hfits.lastOr_eq covers] at hocc
      exact ih (fun hr => hno (.inr (.inr hr))) hocc

end ChartLint.Modernize
