import ChartLint.Proofs.Modernize.Namespace

/-!
# The imports pass

The pass puts the missing directives at a line start in front of the first namespace declaration
(`usingsOffset_spec`). If that line starts outside of comments and literals, the directives are seen,
and whatever the pass looks at is found afterwards in what stood in front of them, in what stood
behind them, or in them (`occurs_insert_block`, `occurs_directive_insert_block`). If it starts
inside of a comment or a literal, the directives only widen a run of blanks (`occurs_widen`).
-/

namespace ChartLint.Modernize

open Pattern Lexing Text Source

/-! ## How the observed patterns are spelled -/

/-- The patterns that see no import: the namespace declaration, and all of the observed ones but the
directives themselves. -/
def importBlind : List Pattern :=
  [namespaceDeclaration, ScriptKind.strategyBase, brushType, listType, queryCall]

/-- The parts of a directive. -/
def directiveParts (path : Text) : List Part :=
  [.ink "using".toList, .space true, .ink path, .space false, .ink [';']]

/-- What is computed about the namespaces to import, all of it at once: how a directive is spelled,
that it opens and closes no comment or literal, and what starts in it. -/
theorem importable_checked : ∀ path ∈ importable,
    (isSpaced (directiveParts path.toList) = true
      ∧ (inkHeads (directiveParts path.toList).tail).all (['S', 'N', ';'].contains ·) = true)
    ∧ path.toList.all (fun c => isPathChar c && isInert c && c != '*' && c != '"') = true
    ∧ (∀ q ∈ importBlind,
      q.startFree ("using".toList ++ ([' '] ++ (path.toList ++ [';']))) = true)
    ∧ (Pattern.edge ++ "using").startFree ("sing".toList ++ ([' '] ++ (path.toList ++ [';'])))
      = true := by
  decide +kernel

theorem elastic_usingDirective {path : String} (h : path ∈ importable) :
    (usingDirective path.toList).Elastic ['S', 'N', ';'] := by
  obtain ⟨⟨hspaced, hheads⟩, -⟩ := importable_checked path h
  have helastic := elastic_edge_spelled (p := usingDirective path.toList)
    (fun x w r => by simp only [usingDirective, accepts_append_assoc]; exact Iff.rfl) hspaced
  intro x w r hacc
  obtain ⟨parts, hparts, hsub, hspells, hall⟩ := helastic x w r hacc
  refine ⟨parts, hparts, fun c hc => ?_, hspells, hall⟩
  simpa using List.all_eq_true.mp hheads c (hsub c hc)

theorem elastic_listType : listType.Elastic ['<'] := by
  have hspaced : isSpaced [.ink "List".toList, .space false, .ink ['<']] = true := by
    decide
  refine elastic_edge_spelled (fun x w r => ?_) hspaced
  simp only [listType, accepts_append_assoc]
  exact Iff.rfl

theorem elastic_brushType : brushType.Elastic [] := by
  intro x w r hacc
  have hacc' := hacc
  simp only [brushType, accepts_append_assoc] at hacc'
  simp only [accepts_append, accepts_text] at hacc'
  obtain ⟨_, _, rfl, ⟨rfl, -⟩, _, _, rfl, rfl, rfl, -⟩ := hacc'
  refine ⟨[.ink "Brush".toList], by decide, by simp [inkHeads], ⟨[], rfl, rfl⟩, ?_⟩
  rintro _ ⟨_, rfl, rfl⟩
  exact hacc

/-- The parts of the derivation from the strategy base. -/
def strategyParts : List Part :=
  [.ink [':'], .space false, .ink "Strategy".toList]

theorem accepts_strategyBase {x : Option Char} {w r : Text} :
    ScriptKind.strategyBase.Accepts x w r ↔ Spells strategyParts w ∧ r.head?.any isWord = false := by
  have hbase : ScriptKind.strategyBase.Accepts x w r
      ↔ (spelled strategyParts ++ Pattern.edge).Accepts x w r := by
    simp only [ScriptKind.strategyBase, strategyParts, spelled, accepts_append_assoc]
    exact Iff.rfl
  have hlast : ∀ v, Spells strategyParts v → lastOr x v = some 'y' := by
    rintro v ⟨_, rfl, s, _, rfl, -, -, _, rfl, rfl⟩
    simp
  rw [hbase, accepts_append]
  constructor
  · rintro ⟨w₁, w₂, rfl, h₁, rfl, hedge⟩
    have hspells := accepts_spelled.mp h₁
    rw [hlast w₁ hspells] at hedge
    rw [List.append_nil]
    refine ⟨hspells, ?_⟩
    change (isWord 'y' != r.head?.any isWord) = true at hedge
    rw [show isWord 'y' = true by decide] at hedge
    simpa using hedge
  · rintro ⟨hspells, hr⟩
    refine ⟨w, [], by simp, accepts_spelled.mpr hspells, rfl, ?_⟩
    rw [hlast w hspells, hr]
    change (isWord 'y' != false) = true
    decide

theorem elastic_strategyBase : ScriptKind.strategyBase.Elastic ['S'] := by
  intro x w r hacc
  obtain ⟨hspells, hr⟩ := accepts_strategyBase.mp hacc
  refine ⟨strategyParts, by decide, fun c hc => hc, hspells, ?_⟩
  exact fun w' hw' => accepts_strategyBase.mpr ⟨hw', hr⟩

theorem elastic_queryCall : queryCall.Elastic ['('] := by
  have hcall : ∀ {x : Option Char} {w r : Text}, queryCall.Accepts x w r ↔
      ∃ name ∈ ["Select", "Where", "OrderBy", "OrderByDescending", "Any", "Sum", "Average"],
        Spells [.ink ('.' :: name.toList), .space false, .ink ['(']] w := by
    intro x w r
    simp only [queryCall, accepts_append_assoc]
    simp only [accepts_append, accepts_text, anyWord, blanks, accepts_many, Spells]
    constructor
    · rintro ⟨_, _, rfl, rfl, _, _, rfl, hname, s, _, rfl, hs, rfl⟩
      obtain ⟨p, hp, hacc⟩ := (accepts_anyOf (by simp)).mp hname
      obtain ⟨name, hmem, rfl⟩ := List.mem_map.mp hp
      rw [accepts_text.mp hacc]
      exact ⟨name, hmem, _, rfl, s, _, rfl, hs, by simp, [], rfl, rfl⟩
    · rintro ⟨name, hmem, _, rfl, s, _, rfl, hs, -, _, rfl, rfl⟩
      refine ⟨['.'], _, rfl, rfl, name.toList, _, rfl, ?_, s, _, rfl, hs, rfl⟩
      exact (accepts_anyOf (by simp)).mpr ⟨_, List.mem_map_of_mem hmem, accepts_text.mpr rfl⟩
  intro x w r hacc
  obtain ⟨name, hmem, hspells⟩ := hcall.mp hacc
  have hcheck : ∀ name ∈ ["Select", "Where", "OrderBy", "OrderByDescending", "Any", "Sum",
      "Average"], isSpaced [.ink ('.' :: name.toList), .space false, .ink ['(']] = true := by
    decide
  refine ⟨_, hcheck name hmem, by simp [inkHeads], hspells, ?_⟩
  exact fun w' hw' => hcall.mpr ⟨name, hmem, hw'⟩

/-- All observed patterns are spelled. -/
theorem elastic_observed {q : Pattern} (hq : q ∈ observed) : ∃ heads, q.Elastic heads := by
  simp only [observed, List.mem_append, List.mem_cons, List.not_mem_nil, or_false,
    List.mem_map] at hq
  rcases hq with (rfl | rfl | rfl | rfl) | ⟨path, hpath, rfl⟩
  · exact ⟨_, elastic_strategyBase⟩
  · exact ⟨_, elastic_brushType⟩
  · exact ⟨_, elastic_listType⟩
  · exact ⟨_, elastic_queryCall⟩
  · exact ⟨_, elastic_usingDirective hpath⟩

/-- **Observed patterns do not see** how wide a run of blanks is, as long as it has two of them. -/
theorem occurs_widen {q : Pattern} (hq : q ∈ observed) {a z b : Text} {c d : Char}
    (hc : isBlank c = true) (hd : isBlank d = true) (hz : ∀ e ∈ z, isBlank e = true) :
    q.Occurs none ((a ++ [c]) ++ (z ++ d :: b)) ↔ q.Occurs none ((a ++ [c]) ++ d :: b) := by
  obtain ⟨heads, helastic⟩ := elastic_observed hq
  obtain ⟨hlocal, -, hend⟩ := observed_local hq
  have hstart : ∀ c, isBlank c = true → q.NoStart [c] :=
    fun c hc => started_blank (List.mem_cons_of_mem _ hq) (by simpa using hc)
  exact ⟨Occurs.shrink helastic hlocal hstart hend hc hd hz,
    Occurs.stretch helastic hlocal hstart hc hd hz⟩

/-! ## Where the directives go -/

/-- The line start in front of an offset cuts the text in front of it behind its last line feed. -/
theorem lineStartBefore_spec (t g t' : Text) (h : t = g ++ t') :
    ∃ g₁ g₂, g = g₁ ++ g₂ ∧ lineStartBefore t g.length = g₁.length ∧ EndsLine g₁ := by
  have hsplit : g = (g.reverse.dropWhile (· != '\n')).reverse
      ++ (g.reverse.takeWhile (· != '\n')).reverse := by
    rw [← List.reverse_append, List.takeWhile_append_dropWhile, List.reverse_reverse]
  have hlen := congrArg List.length hsplit
  simp only [List.length_append, List.length_reverse] at hlen
  refine ⟨_, _, hsplit, ?_, ?_⟩
  · rw [lineStartBefore, h, List.take_left, List.length_reverse]
    omega
  · intro c hc
    rw [List.getLast?_reverse] at hc
    have hany := any_head?_dropWhile (· != '\n') g.reverse
    rw [hc] at hany
    simpa using hany

/-- What stands behind the offset at which directives are added: the end of a region, or the line of
the first namespace declaration; if there is neither, the offset is the start of the text. -/
inductive Anchor (masked : Text) (b : Text) : Prop where
  | region (ink : firstInk b = some '#')
  | declaration (occurs : namespaceDeclaration.Occurs none masked) (ne : b ≠ [])
  | start (whole : b = masked) (none : ¬ namespaceDeclaration.Occurs none masked)

theorem regionEnd_spec {masked : Text} {m : Match} (h : regionEnd.find? masked = some m) :
    ∃ g b, masked = g ++ b ∧ m.start = g.length ∧ EndsLine g ∧ firstInk b = some '#' := by
  obtain ⟨g, b, rfl, -, hmatch⟩ := findFrom?_eq_some.mp h
  obtain ⟨w, r, rfl, hacc, hstart, -⟩ := accepts_of_matchAt? hmatch
  simp only [regionEnd, accepts_append_assoc] at hacc
  simp only [accepts_append, accepts_text, accepts_many] at hacc
  obtain ⟨_, _, rfl, ⟨rfl, hline⟩, s, _, rfl, hs, rfl⟩ := hacc
  refine ⟨g, _, rfl, by rw [hstart, Nat.zero_add], ?_, ?_⟩
  · intro c hc
    rw [lastOr_of_getLast? hc] at hline
    simpa using hline
  · have hblank : ∀ c ∈ s, isBlank c = true := by
      intro c hc
      have hcls := hs c hc
      simp only [oneOf, List.contains_eq_mem, List.mem_cons, List.not_mem_nil, or_false,
        decide_eq_true_eq] at hcls
      rcases hcls with rfl | rfl <;> decide
    rw [List.nil_append, List.append_assoc, firstInk_append_of_isBlank hblank]
    exact firstInk_append_of_ink rfl (by decide) r

/-- **Directives are added** at a line start that no namespace declaration precedes. -/
theorem usingsOffset_spec (masked : Text) :
    ∃ a b, masked = a ++ b ∧ usingsOffset masked = a.length ∧ EndsLine a
      ∧ ¬ namespaceDeclaration.Begins none a b ∧ Anchor masked b := by
  -- the line of the first declaration
  have hline : ∀ m, namespaceDeclaration.find? masked = some m →
      ∃ a b, masked = a ++ b ∧ lineStartBefore masked m.start = a.length ∧ EndsLine a
        ∧ ¬ namespaceDeclaration.Begins none a b ∧ Anchor masked b := by
    intro m hm
    have hocc : namespaceDeclaration.Occurs none masked := occursIn_iff.mp (by rw [occursIn, hm]; rfl)
    obtain ⟨g, s, path, r, hdecl⟩ := exists_declares hocc
    obtain ⟨m', hm', hstart, -⟩ := hdecl.find?
    obtain rfl : m' = m := Option.some.inj (hm'.symm.trans hm)
    obtain ⟨g₁, g₂, rfl, hoffset, hends⟩ := lineStartBefore_spec masked g _ hdecl.split
    refine ⟨g₁, _, by rw [hdecl.split, List.append_assoc], by rw [hstart, hoffset], hends, ?_, ?_⟩
    · exact fun hbegins => hdecl.first hbegins.append_right
    · have hword : namespaceWord ≠ [] := by decide
      refine .declaration hocc ?_
      rw [ne_eq, List.append_eq_nil_iff, List.append_eq_nil_iff]
      exact fun hnil => hword hnil.2.1
  rw [usingsOffset]
  split
  · next region hregion hnone =>
    obtain ⟨g, b, hsplit, hstart, hends, hink⟩ := regionEnd_spec hregion
    refine ⟨g, b, hsplit, hstart, hends, ?_, .region hink⟩
    intro hbegins
    have hocc : namespaceDeclaration.Occurs none masked := by
      rw [hsplit, occurs_append]
      exact .inl hbegins
    rw [← occursIn_iff, occursIn, hnone] at hocc
    cases hocc
  · next region m hregion hm =>
    split
    · next hlt =>
      obtain ⟨g, b, hsplit, hstart, hends, hink⟩ := regionEnd_spec hregion
      refine ⟨g, b, hsplit, hstart, hends, ?_, .region hink⟩
      have hocc : namespaceDeclaration.Occurs none masked :=
        occursIn_iff.mp (by rw [occursIn, hm]; rfl)
      obtain ⟨g', s, path, r, hdecl⟩ := exists_declares hocc
      obtain ⟨m', hm', hstart', -⟩ := hdecl.find?
      obtain rfl : m' = m := Option.some.inj (hm'.symm.trans hm)
      -- the region ends in front of the first declaration
      rw [hstart, hstart'] at hlt
      rcases List.append_eq_append_iff.mp (hsplit.symm.trans hdecl.split) with
        ⟨g'', rfl, rfl⟩ | ⟨g'', rfl, -⟩
      · exact fun hbegins => hdecl.first hbegins.append_right
      · rw [List.length_append] at hlt
        omega
    · exact hline m hm
  · next m _ hm => exact hline m hm
  · next hnone =>
    refine ⟨[], masked, rfl, rfl, by simp [EndsLine], by simp, .start rfl ?_⟩
    rw [← occursIn_iff, occursIn, hnone]
    simp

/-! ## The added lines -/

/-- The line breaks that a script may have. -/
def lineBreaks : List Text :=
  [['\n'], ['\r', '\n']]

theorem lineBreak_mem (t : Text) : Text.lineBreak t ∈ lineBreaks := by
  unfold Text.lineBreak
  split <;> simp [lineBreaks]

theorem isBlank_of_mem_lineBreak {newline : Text} (h : newline ∈ lineBreaks) :
    ∀ c ∈ newline, isBlank c = true := by
  have hcheck : ∀ newline ∈ lineBreaks, newline.all isBlank = true := by
    decide
  exact List.all_eq_true.mp (hcheck newline h)

/-- The line that imports a namespace. -/
def importLine (newline : Text) (path : String) : Text :=
  (directive path).toList ++ newline

/-- The lines that import several namespaces. -/
def importBlock (newline : Text) (paths : List String) : Text :=
  paths.flatMap (importLine newline)

/-- An added line is a directive and a line break, and opens and closes no comment or literal. -/
theorem importLine_text {newline : Text} (hnewline : newline ∈ lineBreaks) {path : String}
    (hpath : path ∈ importable) :
    importLine newline path = "using".toList ++ ([' '] ++ (path.toList ++ ([';'] ++ newline)))
      ∧ (importLine newline path).getLast? = some '\n'
      ∧ (importLine newline path).all (fun c => isInert c && c != '*' && c != '"') = true := by
  have htext : importLine newline path
      = "using".toList ++ ([' '] ++ (path.toList ++ ([';'] ++ newline))) := by
    simp [importLine, directive, toString]
  obtain ⟨-, hpath, -⟩ := importable_checked path hpath
  have hinert : path.toList.all (fun c => isInert c && c != '*' && c != '"') = true := by
    refine List.all_eq_true.mpr (fun c hc => ?_)
    have hcheck := List.all_eq_true.mp hpath c hc
    simp only [Bool.and_eq_true] at hcheck ⊢
    exact ⟨⟨hcheck.1.1.2, hcheck.1.2⟩, hcheck.2⟩
  have hbreak : newline.all (fun c => isInert c && c != '*' && c != '"') = true
      ∧ newline.getLast? = some '\n' := by
    simp only [lineBreaks, List.mem_cons, List.not_mem_nil, or_false] at hnewline
    rcases hnewline with rfl | rfl <;> decide
  refine ⟨htext, ?_, ?_⟩
  · rw [htext]
    simp only [List.getLast?_append, hbreak.2]
    rfl
  · rw [htext]
    simp only [List.all_append, hinert, hbreak.1]
    decide

theorem noEntry_importLine {q : Pattern} (hq : q ∈ observed) {path : String}
    {newline : Text} (hnewline : newline ∈ lineBreaks) (hpath : path ∈ importable) :
    q.NoEntry (importLine newline path) := by
  rw [(importLine_text hnewline hpath).1]
  exact observed_noEntry hq (by simp [editWords]) _

theorem noStart_importLine {q : Pattern} (hq : q ∈ importBlind) {path : String}
    (hpath : path ∈ importable) {newline : Text} (hnewline : newline ∈ lineBreaks) :
    q.NoStart (importLine newline path) := by
  obtain ⟨-, -, hblind, -⟩ := importable_checked path hpath
  have hstarted : q ∈ started := List.mem_append_left _ hq
  have hline := (noStart_of_startFree (hblind q hq)).append
    (started_blank hstarted (isBlank_of_mem_lineBreak hnewline))
  rw [(importLine_text hnewline hpath).1]
  simpa only [List.append_assoc] using hline

/-- A namespace to import is a path. -/
theorem path_of_mem_importable {path : String} (h : path ∈ importable) :
    path.toList ≠ [] ∧ ∀ c ∈ path.toList, isPathChar c = true := by
  obtain ⟨⟨hspaced, -⟩, hall, -⟩ := importable_checked path h
  simp only [directiveParts, isSpaced, Bool.and_eq_true, Bool.not_eq_true',
    List.isEmpty_eq_false_iff] at hspaced
  refine ⟨hspaced.2.1.1, fun c hc => ?_⟩
  have hcheck := List.all_eq_true.mp hall c hc
  simp only [Bool.and_eq_true] at hcheck
  exact hcheck.1.1.1

theorem takeWhile_isPathChar {path r : Text} (hpath : ∀ c ∈ path, isPathChar c = true)
    (hr : r.head?.any isPathChar = false) : (path ++ r).takeWhile isPathChar = path := by
  have hnil : r.takeWhile isPathChar = [] := by
    cases r with
    | nil => rfl
    | cons c r => exact List.takeWhile_cons_of_neg (by simpa using hr)
  rw [List.takeWhile_append_of_pos hpath, hnil, List.append_nil]

theorem dropWhile_isBlank {s path : Text} (hs : ∀ c ∈ s, isBlank c = true)
    (hpath : path ≠ [] ∧ ∀ c ∈ path, isPathChar c = true) (r : Text) :
    (s ++ (path ++ r)).dropWhile isBlank = path ++ r := by
  obtain ⟨c, t, rfl⟩ := List.exists_cons_of_ne_nil hpath.1
  have hc : ¬ isBlank c = true := by
    intro hblank
    have hcheck := hpath.2 c (by simp)
    rw [isPathChar_of_isBlank hblank] at hcheck
    cases hcheck
  rw [List.dropWhile_append_of_pos hs]
  exact List.dropWhile_cons_of_neg hc

/-- Two directives at the same place import the same namespace. -/
theorem path_unique {path other : String} (hpath : path ∈ importable) (hother : other ∈ importable)
    {s s' t r r' : Text} (hs : ∀ c ∈ s, isBlank c = true) (hs' : ∀ c ∈ s', isBlank c = true)
    (ht : ∀ c ∈ t, isBlank c = true)
    (h : s ++ (other.toList ++ (s' ++ ';' :: r)) = t ++ (path.toList ++ ';' :: r')) :
    other = path := by
  have hpath := path_of_mem_importable hpath
  have hother := path_of_mem_importable hother
  have hdrop := congrArg (List.dropWhile isBlank) h
  rw [dropWhile_isBlank hs hother, dropWhile_isBlank ht hpath] at hdrop
  have htake := congrArg (List.takeWhile isPathChar) hdrop
  have hsemi : ∀ t : Text, (';' :: t).head?.any isPathChar = false := by
    intro t
    change isPathChar ';' = false
    decide
  have hnext : (s' ++ ';' :: r).head?.any isPathChar = false := by
    cases s' with
    | nil => exact hsemi r
    | cons c s' => exact isPathChar_of_isBlank (hs' c (by simp))
  rw [takeWhile_isPathChar hother.2 hnext, takeWhile_isPathChar hpath.2 (hsemi r')] at htake
  exact String.toList_injective htake

/-- A directive does not see the lines that import other namespaces. -/
theorem noStart_importLine_of_ne {path other : String} (hpath : path ∈ importable)
    (hother : other ∈ importable) (hne : other ≠ path) {newline : Text}
    (hnewline : newline ∈ lineBreaks) :
    (usingDirective other.toList).NoStart (importLine newline path) := by
  obtain ⟨-, -, -, hlater⟩ := importable_checked path hpath
  have hstarted : usingDirective other.toList ∈ started :=
    List.mem_cons_of_mem _ (usingDirective_mem_observed hother)
  have htail : (usingDirective other.toList).NoStart
      ("sing".toList ++ ([' '] ++ (path.toList ++ [';'])) ++ newline) :=
    (((((noStart_of_startFree hlater).followedBy _).followedBy _).followedBy _).followedBy
      _).append (started_blank hstarted (isBlank_of_mem_lineBreak hnewline))
  have hline : importLine newline path
      = 'u' :: ("sing".toList ++ ([' '] ++ (path.toList ++ [';'])) ++ newline) := by
    rw [(importLine_text hnewline hpath).1]
    simp
  intro x b
  rw [hline, begins_cons]
  rintro (⟨w, r, hsplit, hacc⟩ | hbegins)
  · have hspelled : (Pattern.edge ++ spelled (directiveParts other.toList)).Accepts x w r := by
      simp only [usingDirective, accepts_append_assoc] at hacc
      exact hacc
    obtain ⟨-, _, rfl, s, _, rfl, hs, -, _, rfl, s', _, rfl, hs', -, _, rfl, rfl⟩ :=
      accepts_edge_spelled.mp hspelled
    have hsame : s ++ (other.toList ++ (s' ++ ';' :: r))
        = [' '] ++ (path.toList ++ ';' :: (newline ++ b)) := by
      simpa using hsplit.symm
    exact hne (path_unique hpath hother hs hs' (List.forall_mem_singleton.mpr rfl) hsame)
  · exact htail _ _ hbegins

theorem startsAt_importLine {path : String} (hpath : path ∈ importable) {newline : Text}
    (hnewline : newline ∈ lineBreaks) {x : Option Char} (hx : x.any isWord = false) (b : Text) :
    (usingDirective path.toList).StartsAt x (importLine newline path ++ b) := by
  obtain ⟨htext, -, -⟩ := importLine_text hnewline hpath
  refine ⟨"using".toList ++ ([' '] ++ (path.toList ++ [';'])), newline ++ b, ?_, ?_⟩
  · rw [htext]
    simp only [List.append_assoc]
  · have hspells : Spells [.ink "using".toList, .space true, .ink path.toList, .space false,
        .ink [';']] ("using".toList ++ ([' '] ++ (path.toList ++ [';']))) :=
      ⟨_, rfl, [' '], _, rfl, List.forall_mem_singleton.mpr rfl, by simp, _, rfl, [], [';'], rfl, by simp, by simp,
        [], rfl, rfl⟩
    have hedge : (x.any isWord != isWord 'u') = true := by
      rw [hx]
      decide
    simp only [usingDirective, accepts_append_assoc]
    exact accepts_edge_spelled.mpr ⟨hedge, hspells⟩

section Block

variable {newline : Text} (hnewline : newline ∈ lineBreaks) {paths : List String}
  (hpaths : ∀ path ∈ paths, path ∈ importable)

include hnewline hpaths

theorem mem_importBlock {c : Char} (hc : c ∈ importBlock newline paths) :
    isInert c = true ∧ c ≠ '*' ∧ c ≠ '"' := by
  obtain ⟨path, hpath, hmem⟩ := List.mem_flatMap.mp hc
  obtain ⟨-, -, hall⟩ := importLine_text hnewline (hpaths path hpath)
  simpa [and_assoc] using List.all_eq_true.mp hall c hmem

theorem noStart_importBlock {q : Pattern} (hq : q ∈ importBlind) :
    q.NoStart (importBlock newline paths) := by
  induction paths with
  | nil => exact fun x b => not_begins_nil _ x b
  | cons path paths ih =>
    exact (noStart_importLine hq (hpaths path (by simp)) hnewline).append
      (ih (fun p hp => hpaths p (by simp [hp])))

theorem lastOr_importBlock (hne : paths ≠ []) (x : Option Char) :
    lastOr x (importBlock newline paths) = some '\n' := by
  induction paths generalizing x with
  | nil => exact absurd rfl hne
  | cons path paths ih =>
    obtain ⟨-, hlast, -⟩ := importLine_text hnewline (hpaths path (by simp))
    rw [importBlock, List.flatMap_cons, lastOr_append, lastOr_of_getLast? hlast]
    cases paths with
    | nil => rfl
    | cons next paths => exact ih (fun p hp => hpaths p (by simp [hp])) (by simp) _

/-- Of the added lines, a directive sees its own. -/
theorem begins_importBlock {path : String} (hpath : path ∈ importable) {x : Option Char}
    (hx : x.any isWord = false) (b : Text) :
    (usingDirective path.toList).Begins x (importBlock newline paths) b ↔ path ∈ paths := by
  induction paths generalizing x with
  | nil => simp [importBlock]
  | cons first paths ih =>
    have hfirst := hpaths first (by simp)
    obtain ⟨htext, hlast, -⟩ := importLine_text hnewline hfirst
    have hrest := ih (fun p hp => hpaths p (by simp [hp])) (x := some '\n') (by decide)
    rw [importBlock, List.flatMap_cons, begins_append, lastOr_of_getLast? hlast,
      List.mem_cons]
    apply or_congr _ hrest
    constructor
    · intro hbegins
      by_contra hne
      exact noStart_importLine_of_ne hfirst hpath hne hnewline _ _ hbegins
    · rintro rfl
      have hne : importLine newline path ≠ [] := by
        rw [htext]
        simp
      exact ⟨[], importLine newline path, rfl, hne, startsAt_importLine hpath hnewline hx _⟩

/-- The front of the block is the front of its first line. -/
theorem noEntry_importBlock (hne : paths ≠ []) {q : Pattern} (hq : q ∈ observed) :
    q.NoEntry (importBlock newline paths) := by
  obtain ⟨path, rest, rfl⟩ := List.exists_cons_of_ne_nil hne
  exact (noEntry_importLine hq hnewline (hpaths path (by simp))).append _

/-- **What is observed after an insertion** is what is observed in the lines in front, in the
inserted lines or behind them. -/
theorem occurs_insert_block (hne : paths ≠ []) {q : Pattern} (hq : q ∈ observed) {a : Text}
    (ha : EndsLine a) (b : Text) :
    q.Occurs none (a ++ (importBlock newline paths ++ b)) ↔ q.Occurs none a
      ∨ q.Begins (lastOr none a) (importBlock newline paths) b ∨ q.Occurs none b := by
  obtain ⟨hlocal, hempty, hend⟩ := observed_local hq
  have hfront : SameFront (some '\n') none := .inr ⟨rfl, rfl⟩
  rw [occurs_insert hlocal hempty (hend '\n' rfl) ha (noEntry_importBlock hnewline hpaths hne hq),
    occurs_append, lastOr_importBlock hnewline hpaths hne, occurs_congr_front hlocal hfront]

/-! ## The namespace after an insertion -/

/-- A directive starts with a foreign letter. -/
theorem importBlock_eq_cons (hne : paths ≠ []) :
    ∃ t, importBlock newline paths = 'u' :: t ∧ isForeign 'u' = true := by
  obtain ⟨path, rest, rfl⟩ := List.exists_cons_of_ne_nil hne
  obtain ⟨htext, -⟩ := importLine_text hnewline (hpaths path (by simp))
  rw [importBlock, List.flatMap_cons, htext]
  exact ⟨_, rfl, by decide⟩

theorem not_begins_insert_block (hne : paths ≠ []) {a b : Text}
    (ha : ¬ namespaceDeclaration.Begins none a b) (hdangling : ¬ Dangling none a) :
    ¬ namespaceDeclaration.Begins none a (importBlock newline paths ++ b) := by
  obtain ⟨t, ht, hforeign⟩ := importBlock_eq_cons hnewline hpaths hne
  intro hbegins
  rw [ht] at hbegins
  exact (begins_namespace_foreign hforeign hbegins b).elim hdangling ha

/-- **An insertion keeps the first path**, unless a namespace declaration dangles in front of it. -/
theorem firstPath_insert_block (hne : paths ≠ []) {a b path : Text} (hends : EndsLine a)
    (ha : ¬ namespaceDeclaration.Begins none a b) (hdangling : ¬ Dangling none a)
    (h : FirstPath none (a ++ b) path) :
    FirstPath none (a ++ (importBlock newline paths ++ b)) path := by
  have hblock : namespaceDeclaration.NoStart (importBlock newline paths) :=
    noStart_importBlock hnewline hpaths (by simp [importBlind])
  refine FirstPath.append (not_begins_insert_block hnewline hpaths hne ha hdangling) ?_
  refine FirstPath.append (hblock _ _) ?_
  rw [lastOr_importBlock hnewline hpaths hne]
  exact (h.of_append ha).congr_front hends.sameFront

theorem not_occurs_insert_block (hne : paths ≠ []) {a b : Text} (hends : EndsLine a)
    (ha : ¬ namespaceDeclaration.Occurs none (a ++ b)) (hdangling : ¬ Dangling none a) :
    ¬ namespaceDeclaration.Occurs none (a ++ (importBlock newline paths ++ b)) := by
  have hlocal : namespaceDeclaration.isLocal = true := by decide
  rw [occurs_append] at ha
  rw [occurs_append, occurs_append, lastOr_importBlock hnewline hpaths hne]
  rintro (hbegins | hbegins | hocc)
  · exact not_begins_insert_block hnewline hpaths hne (fun h => ha (.inl h)) hdangling hbegins
  · exact noStart_importBlock hnewline hpaths (by simp [importBlind]) _ _ hbegins
  · exact ha (.inr ((occurs_congr_front hlocal hends.sameFront b).mpr hocc))

/-- **A dangling declaration** takes the first directive for its path. -/
theorem firstPath_of_dangling (hne : paths ≠ []) {a b : Text}
    (ha : ¬ namespaceDeclaration.Begins none a b) (hdangling : Dangling none a) :
    FirstPath none (a ++ (importBlock newline paths ++ b)) "using".toList := by
  obtain ⟨a₀, s, rfl, hfront, hs⟩ := hdangling
  obtain ⟨path, rest, rfl⟩ := List.exists_cons_of_ne_nil hne
  obtain ⟨htext, -⟩ := importLine_text hnewline (hpaths path (by simp))
  refine ⟨a₀, s, [' '] ++ (path.toList ++ ([';'] ++ newline)) ++ importBlock newline rest ++ b, ?_,
    ?_, hfront, hs, ⟨by decide, List.all_eq_true.mp (by decide)⟩, ?_⟩
  · rw [importBlock, List.flatMap_cons, htext]
    simp [importBlock]
  · intro hbegins
    refine ha (Begins.append_right ?_)
    rw [List.append_assoc]
    exact begins_namespace_congr (by decide) _ hbegins
  · change isPathChar ' ' = false
    decide

end Block

end ChartLint.Modernize
