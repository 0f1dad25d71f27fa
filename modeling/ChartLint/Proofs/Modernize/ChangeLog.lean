import ChartLint.Proofs.Modernize.Idempotent

/-!
# What a modernization leaves, and what it says

Two promises of a whole modernization. No construct of the previous release is left in the script
(`legacy_gone_run`). And the log is true: it lists nothing exactly if the script is as it was
(`changes_run_eq_nil_iff`). One direction is a matter of every pass on its own. The other one has to
exclude that passes undo each other's work, and rests on two facts: neither the namespace pass nor
the imports pass brings a construct of the previous release (`occurs_of_occurs_fixNamespace`,
`occurs_of_occurs_fixUsings`), and of these two only the imports pass moves the number of lines.
-/

namespace ChartLint.Modernize

open Pattern Lexing Text Source

/-! ## Nothing is left -/

/-- The assignment of the previous release's flag, whichever value it gives. -/
def legacyAssignment : Pattern :=
  .edge ++ "CalculateOnBarClose" ++ blanks ++ "=" ++ blanks ++ anyWord ["true", "false"] ++ blanks
    ++ ";"

/-- The assignment gives one of the values that are replaced. -/
theorem startsAt_legacyAssignment {x : Option Char} {t : Text} (h : legacyAssignment.StartsAt x t) :
    ∃ flag ∈ calculateFlags, (legacyCalculate flag.1).StartsAt x t := by
  obtain ⟨_, r, rfl, hacc⟩ := h
  obtain ⟨_, semicolon, rfl, hacc, hsemicolon⟩ := accepts_append.mp hacc
  obtain ⟨_, s, rfl, hacc, hs⟩ := accepts_append.mp hacc
  obtain ⟨front, value, rfl, hfront, hvalue⟩ := accepts_append.mp hacc
  have hne : ["true", "false"].map text ≠ [] := by simp
  obtain ⟨p, hp, hvalue⟩ := (accepts_anyOf hne).mp hvalue
  have hflag : ∃ flag ∈ calculateFlags, p = text flag.1 := by
    simp only [List.map_cons, List.map_nil, List.mem_cons, List.not_mem_nil, or_false] at hp
    rcases hp with rfl | rfl
    · exact ⟨("true", "OnBarClose"), by simp [calculateFlags], rfl⟩
    · exact ⟨("false", "OnEachTick"), by simp [calculateFlags], rfl⟩
  obtain ⟨flag, hmem, rfl⟩ := hflag
  refine ⟨flag, hmem, front ++ value ++ s ++ semicolon, r, rfl, ?_⟩
  rw [legacyCalculate, accepts_append]
  refine ⟨front ++ value ++ s, semicolon, rfl, ?_, hsemicolon⟩
  rw [accepts_append]
  refine ⟨front ++ value, s, rfl, ?_, hs⟩
  rw [accepts_append]
  exact ⟨front, value, rfl, hfront, hvalue⟩

theorem not_occurs_run (requested : Option String) (code : Text) {rep : Replacement}
    (h : rep ∈ legacy) : ¬ rep.shape.Occurs none (mask (run requested code).revision.code) := by
  simp only [run_revision, Revision.andThen]
  have hall : ∀ rep ∈ legacy, rep ∈ legacy := fun _ hrep => hrep
  exact not_occurs_applyAll hall h

/-- **No construct of the previous release is left:** neither a drawing call nor an assignment of the
flag, outside of comments and literals, whatever the passes before have put side by side. -/
theorem legacy_gone_run (requested : Option String) (code : Text) :
    let masked := mask (run requested code).revision.code
    (∀ shape ∈ drawnShapes, (legacyDrawing shape).occursIn masked = false)
      ∧ legacyAssignment.occursIn masked = false := by
  intro masked
  simp only [← Bool.not_eq_true, occursIn_iff]
  constructor
  · intro shape hshape
    have hrep : drawingReplacement shape ∈ legacy :=
      List.mem_append_left _ (List.mem_map_of_mem hshape)
    exact not_occurs_run requested code hrep
  · rintro ⟨a, b, hsplit, hstart⟩
    obtain ⟨flag, hflag, hstart⟩ := startsAt_legacyAssignment hstart
    have hrep : calculateReplacement flag.1 flag.2 ∈ legacy :=
      List.mem_append_right _ (List.mem_map.mpr ⟨flag, hflag, rfl⟩)
    exact not_occurs_run requested code hrep ⟨a, b, hsplit, hstart⟩

/-! ## Patterns that watch for the constructs -/

/-- Local patterns that start where the constructs of the previous release start. -/
def watchers : List Pattern :=
  drawnShapes.map drawingCall ++ calculateFlags.map (fun flag => legacyCalculate flag.1)

theorem exists_watcher {rep : Replacement} (h : rep ∈ legacy) :
    ∃ q ∈ watchers, ∀ x t, rep.shape.StartsAt x t ↔ q.StartsAt x t := by
  rcases mem_legacy h with ⟨shape, hshape, rfl⟩ | ⟨flag, hflag, rfl⟩
  · exact ⟨_, List.mem_append_left _ (List.mem_map_of_mem hshape), startsAt_legacyDrawing shape⟩
  · refine ⟨legacyCalculate flag.1, List.mem_append_right _ ?_, fun x t => Iff.rfl⟩
    exact List.mem_map.mpr ⟨flag, hflag, rfl⟩

/-- What the watchers start with. -/
def watchedWords : List Pattern :=
  [unqualified ++ "Draw", .edge ++ "CalculateOnBarClose"]

/-- What is computed about the watchers, all of it at once. -/
theorem watchers_checked : ∀ q ∈ watchers, (q.isLocal = true ∧ q.mayBeEmpty = false)
    ∧ (∀ n ∈ blankCodes, q.mayEnd (Char.ofNat n) = false)
    ∧ q.entryFree namespaceWord = true ∧ q.entryFree "using".toList = true := by
  decide +kernel

/-- What is computed about the texts that the namespace pass and the imports pass put into a
script. -/
theorem watchedWords_checked : ∀ p ∈ watchedWords, p.startFree namespaceWord = true
    ∧ (∀ kind : ScriptKind, p.startFree kind.expectedNamespace.toList = true)
    ∧ (∀ path ∈ importable,
      p.startFree ("using".toList ++ ([' '] ++ (path.toList ++ [';']))) = true)
    ∧ ∀ n ∈ blankCodes, p.startFree [Char.ofNat n] = true := by
  have hkind : ∀ p ∈ watchedWords, ∀ kind : ScriptKind,
      p.startFree kind.expectedNamespace.toList = true := by
    intro p hp kind
    cases kind <;> revert p <;> decide
  have hrest : ∀ p ∈ watchedWords, p.startFree namespaceWord = true
      ∧ (∀ path ∈ importable,
        p.startFree ("using".toList ++ ([' '] ++ (path.toList ++ [';']))) = true)
      ∧ ∀ n ∈ blankCodes, p.startFree [Char.ofNat n] = true := by
    decide +kernel
  exact fun p hp => ⟨(hrest p hp).1, hkind p hp, (hrest p hp).2⟩

section Watcher

variable {q : Pattern} (hq : q ∈ watchers)

include hq

theorem noStart_watcher {v : Text} (hv : ∀ p ∈ watchedWords, p.startFree v = true) : q.NoStart v := by
  have hword : ∀ p ∈ watchedWords, p.NoStart v := fun p hp => noStart_of_startFree (hv p hp)
  rcases List.mem_append.mp hq with h | h
  · obtain ⟨shape, -, rfl⟩ := List.mem_map.mp h
    exact ((hword (unqualified ++ "Draw") (by simp [watchedWords])).followedBy _).followedBy _
  · obtain ⟨flag, -, rfl⟩ := List.mem_map.mp h
    have hflag := hword (.edge ++ "CalculateOnBarClose") (by simp [watchedWords])
    exact (((((hflag.followedBy _).followedBy _).followedBy _).followedBy _).followedBy
      _).followedBy _

theorem noStart_watcher_blanks {s : Text} (hs : ∀ c ∈ s, isBlank c = true) : q.NoStart s := by
  refine noStart_of_forall fun c hc => noStart_watcher hq fun p hp => ?_
  obtain ⟨-, -, -, hblank⟩ := watchedWords_checked p hp
  exact forall_of_isBlank (P := fun c => p.startFree [c] = true) hblank (hs c hc)

theorem head?_of_startsAt_watcher {x : Option Char} {t : Text} (h : q.StartsAt x t) :
    t.head?.any isPathChar = true := by
  obtain ⟨w, r, rfl, hacc⟩ := h
  rcases List.mem_append.mp hq with h | h
  · obtain ⟨shape, -, rfl⟩ := List.mem_map.mp h
    obtain ⟨-, w', rfl, -⟩ := accepts_drawingCall.mp hacc
    show isPathChar 'D' = true
    decide
  · obtain ⟨flag, -, rfl⟩ := List.mem_map.mp h
    obtain ⟨w', rfl, -⟩ := spells_of_accepts_legacyCalculate hacc
    show isPathChar 'C' = true
    decide

theorem elastic_watcher : ∃ heads, q.Elastic heads := by
  rcases List.mem_append.mp hq with h | h
  · obtain ⟨shape, hshape, rfl⟩ := List.mem_map.mp h
    have hspaced : ∀ shape ∈ drawnShapes, isSpaced (drawingParts shape) = true := by
      decide
    refine ⟨inkHeads (drawingParts shape).tail, fun x w r hacc => ?_⟩
    obtain ⟨hfront, hspells⟩ := accepts_drawingCall.mp hacc
    refine ⟨drawingParts shape, hspaced shape hshape, fun c hc => hc, hspells, fun w' hw' => ?_⟩
    exact accepts_drawingCall.mpr ⟨hfront, hw'⟩
  · obtain ⟨flag, hflag, rfl⟩ := List.mem_map.mp h
    have hspaced : ∀ flag ∈ calculateFlags, isSpaced (calculateParts flag.1) = true := by
      decide
    refine ⟨_, elastic_edge_spelled (fun x w r => ?_) (hspaced flag hflag)⟩
    simp only [legacyCalculate, accepts_append_assoc]
    exact Iff.rfl

/-! ## The first two passes bring none -/

/-- **The namespace pass brings no construct:** the path ends in front of a character with which none
starts, so it does not matter which path it is. -/
theorem occurs_of_occurs_fixNamespace {kind : ScriptKind} {code : Text}
    (h : q.Occurs none (mask (fixNamespace kind code).code)) : q.Occurs none (mask code) := by
  by_cases hocc : namespaceDeclaration.Occurs none (mask code)
  · obtain ⟨g, s, path, r, hdecl⟩ := exists_declares hocc
    have hdecl' := declares_fixNamespace kind hdecl
    obtain ⟨⟨hlocal, -⟩, -, hentry, -⟩ := watchers_checked q hq
    have hword : q.NoStart namespaceWord :=
      noStart_watcher hq fun p hp => (watchedWords_checked p hp).1
    have hpath : q.NoStart kind.expectedNamespace.toList :=
      noStart_watcher hq fun p hp => (watchedWords_checked p hp).2.1 kind
    -- what is found behind the path does not start right there, so the path in front does not matter
    have hfront : ∀ x x', q.Occurs x r → q.Occurs x' r := by
      intro x x' hr
      have hno : ∀ y, ¬ q.StartsAt y r := by
        intro y hstart
        have hhead := head?_of_startsAt_watcher hq hstart
        rw [hdecl.stop] at hhead
        cases hhead
      cases r with
      | nil => exact absurd ((occurs_nil q x).mp hr) (hno x)
      | cons c r =>
        rw [occurs_cons] at hr ⊢
        exact .inr (hr.resolve_left (hno x))
    rw [hdecl'.split] at h
    rw [hdecl.split]
    simp only [occurs_append] at h ⊢
    rcases h with h | h | h | h | h
    · exact .inl (h.of_noEntry hlocal (noEntry_of_entryFree hentry) rfl)
    · exact absurd h (hword _ _)
    · exact absurd h (noStart_watcher_blanks hq hdecl.gap.2 _ _)
    · exact absurd h (hpath _ _)
    · exact .inr (.inr (.inr (.inr (hfront _ _ h))))
  · rwa [fixNamespace_of_not_occurs kind hocc] at h

theorem noStart_watcher_importBlock {newline : Text} (hnewline : newline ∈ lineBreaks)
    {paths : List String} (hpaths : ∀ path ∈ paths, path ∈ importable) :
    q.NoStart (importBlock newline paths) := by
  induction paths with
  | nil => exact fun x b => not_begins_nil _ x b
  | cons path paths ih =>
    have himportable := hpaths path (by simp)
    have hline : q.NoStart (importLine newline path) := by
      have hdirective : q.NoStart ("using".toList ++ ([' '] ++ (path.toList ++ [';']))) :=
        noStart_watcher hq fun p hp => (watchedWords_checked p hp).2.2.1 path himportable
      have htext := hdirective.append
        (noStart_watcher_blanks hq (isBlank_of_mem_lineBreak hnewline))
      rw [(importLine_text hnewline himportable).1]
      simpa only [List.append_assoc] using htext
    exact hline.append (ih fun p hp => hpaths p (by simp [hp]))

/-- **The imports pass brings no construct**, whether its directives are seen or only widen a run of
blanks. -/
theorem occurs_of_occurs_fixUsings {code : Text} (h : q.Occurs none (mask (fixUsings code).code)) :
    q.Occurs none (mask code) := by
  by_cases hmissing : missingUsings (mask code) = []
  · rwa [fixUsings_of_missing_nil hmissing] at h
  obtain ⟨⟨hlocal, hempty⟩, hblank, -, hentry⟩ := watchers_checked q hq
  have hend : ∀ c, isBlank c = true → q.mayEnd c = false :=
    fun c hc => forall_of_isBlank (P := fun c => q.mayEnd c = false) hblank hc
  obtain ⟨a, b, hsplit, hoffset, ha, -, hanchor⟩ := usingsOffset_spec (mask code)
  have hnewline := lineBreak_mem code
  have hpaths := missing_importable (mask code)
  by_cases hout : Outside code a.length
  · rw [mask_fixUsings_outside hmissing hsplit hoffset ha hout] at h
    have hblock : q.NoEntry (importBlock (lineBreak code) (missingUsings (mask code))) := by
      obtain ⟨path, rest, hcons⟩ := List.exists_cons_of_ne_nil hmissing
      have htext := importLine_text hnewline (hpaths path (by simp [hcons]))
      rw [hcons, importBlock, List.flatMap_cons, htext.1]
      exact ((noEntry_of_entryFree hentry).append _).append _
    rw [occurs_insert hlocal hempty (hend '\n' rfl) ha hblock, occurs_append,
      lastOr_importBlock hnewline hpaths hmissing] at h
    rw [hsplit]
    rcases h with h | h | h
    · exact h.append_of_endsLine hlocal hempty (hend '\n' rfl) ha b
    · exact absurd h (noStart_watcher_importBlock hq hnewline hpaths _ _)
    · rw [← occurs_congr_front hlocal ha.sameFront] at h
      exact (occurs_append q none a b).mpr (.inr h)
  · obtain ⟨a', z, d, b', rfl, rfl, hafter, hd, hz⟩ :=
      mask_fixUsings_inside hmissing hsplit hoffset ha hanchor hout
    obtain ⟨heads, helastic⟩ := elastic_watcher hq
    have hstart : ∀ c, isBlank c = true → q.NoStart [c] :=
      fun c hc => noStart_watcher_blanks hq (by simpa using hc)
    rw [hafter] at h
    rw [hsplit]
    exact h.shrink helastic hlocal hstart hend (by decide) hd hz

end Watcher

/-! ## The log -/

/-- The imports pass adds lines if it adds anything. -/
theorem count_fixUsings {code : Text} (hmissing : missingUsings (mask code) ≠ []) :
    code.count '\n' < (fixUsings code).code.count '\n' := by
  have hblock : '\n' ∈ importBlock (lineBreak code) (missingUsings (mask code)) := by
    have hlast := lastOr_importBlock (lineBreak_mem code) (missing_importable _) hmissing none
    rw [lastOr_none] at hlast
    exact List.mem_of_getLast? hlast
  have hcount := count_splice '\n' code (Nat.le_refl (usingsOffset (mask code)))
    (importBlock (lineBreak code) (missingUsings (mask code)))
  have hpos := List.count_pos_iff.mpr hblock
  rw [(code_fixUsings hmissing).1, Text.insertAt]
  simp only [Text.slice, List.drop_take_self, List.count_nil] at hcount
  omega

/-- A pass that lists no change makes none. -/
def Silent (pass : Text → Revision) : Prop :=
  ∀ code, (pass code).changes = [] → (pass code).code = code

theorem Silent.andThen {p q : Text → Revision} (hp : Silent p) (hq : Silent q) :
    Silent (fun code => (p code).andThen q) := by
  intro code hnil
  obtain ⟨hfirst, hsecond⟩ := List.append_eq_nil_iff.mp hnil
  exact (hq _ hsecond).trans (hp code hfirst)

theorem silent_fixNamespace (kind : ScriptKind) : Silent (fixNamespace kind) := by
  intro code hnil
  by_cases hocc : namespaceDeclaration.Occurs none (mask code)
  · obtain ⟨g, s, path, r, hdecl⟩ := exists_declares hocc
    rw [fixNamespace_of_declares kind hdecl] at hnil ⊢
    split at hnil
    · next heq => rw [if_pos heq]
    · cases hnil
  · rw [fixNamespace_of_not_occurs kind hocc]

theorem silent_fixUsings : Silent fixUsings := by
  intro code hnil
  by_cases hmissing : missingUsings (mask code) = []
  · rw [fixUsings_of_missing_nil hmissing]
  · exact absurd hnil (code_fixUsings hmissing).2

theorem silent_applyAll (rs : List Replacement) : Silent (applyAll rs) := by
  have happly : ∀ rep : Replacement, Silent rep.apply := by
    intro rep code hnil
    unfold Replacement.apply at hnil ⊢
    split at hnil
    · rfl
    · cases hnil
  induction rs with
  | nil => exact fun code _ => rfl
  | cons rep rs ih =>
    intro code hnil
    rw [applyAll_cons] at hnil ⊢
    exact (happly rep).andThen ih code hnil

/-- Where the first two passes give the script back, they had nothing to do. -/
theorem changes_of_code_eq {kind : ScriptKind} {code : Text}
    (h : ((fixNamespace kind code).andThen fixUsings).code = code) :
    ((fixNamespace kind code).andThen fixUsings).changes = [] := by
  have hplaced := count_fixNamespace kind code
  have hmissing : missingUsings (mask (fixNamespace kind code).code) = [] := by
    by_contra hmissing
    have hmore := count_fixUsings hmissing
    change (fixUsings (fixNamespace kind code).code).code = code at h
    rw [h] at hmore
    omega
  have husings := fixUsings_of_missing_nil hmissing
  have hsame : (fixNamespace kind code).code = code := by
    rw [Revision.andThen, husings] at h
    exact h
  have hnamespace : (fixNamespace kind code).changes = [] := by
    by_cases hocc : namespaceDeclaration.Occurs none (mask code)
    · obtain ⟨g, s, path, r, hdecl⟩ := exists_declares hocc
      have hdecl' := declares_fixNamespace kind hdecl
      rw [hsame] at hdecl'
      have hpath : path = kind.expectedNamespace.toList :=
        FirstPath.unique ⟨g, s, r, hdecl⟩ ⟨g, s, r, hdecl'⟩
      rw [fixNamespace_of_declares kind hdecl, if_pos hpath]
    · rw [fixNamespace_of_not_occurs kind hocc]
  rw [Revision.andThen, husings, hnamespace]
  rfl

/-- **The log is true:** a modernization lists no change exactly if it gives the script back. -/
theorem changes_run_eq_nil_iff (requested : Option String) (code : Text) :
    (run requested code).revision.changes = [] ↔ (run requested code).revision.code = code := by
  constructor
  · intro hnil
    rw [run_revision] at hnil ⊢
    exact (((silent_fixNamespace _).andThen silent_fixUsings).andThen (silent_applyAll legacy)) code
      hnil
  · intro hsame
    -- the script is its own outcome, so it has no construct of the previous release
    have hfree : ∀ rep ∈ legacy, ¬ rep.shape.Occurs none (mask code) := by
      intro rep hrep
      have hgone := not_occurs_run requested code hrep
      rwa [hsame] at hgone
    rw [run_revision] at hsame ⊢
    have hidle : applyAll legacy
        ((fixNamespace (kindFor requested code) code).andThen fixUsings).code
          = ⟨((fixNamespace (kindFor requested code) code).andThen fixUsings).code, []⟩ := by
      refine applyAll_of_not_occurs (fun _ hrep => hrep) fun rep hrep hocc => ?_
      obtain ⟨q, hq, hwatch⟩ := exists_watcher hrep
      rw [occurs_congr hwatch] at hocc
      apply hfree rep hrep
      rw [occurs_congr hwatch]
      exact occurs_of_occurs_fixNamespace hq (occurs_of_occurs_fixUsings hq hocc)
    rw [Revision.andThen, hidle] at hsame ⊢
    rw [changes_of_code_eq hsame]
    rfl

end ChartLint.Modernize
