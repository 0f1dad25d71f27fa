import ChartLint.Proofs.Respacing.Declaration

/-!
# The skeleton of a respaced script

Two rules read the script itself besides its mask, for the text of literals (`Respacing.Respaced`),
and read the tables of the platform. A table may hold any names; a carriage return can only be told
from a line feed by a name that has a line break in it, so that respacings with carriage returns are
asked to come with the known tables (`Respacing.Serves`).
-/

namespace ChartLint

namespace Respacing

open Text Pattern Source Rule

variable {r : Respacing} {p : Platform}

/-! ## Patterns made from tables -/

/-- Without carriage returns a local pattern has nothing to stray into. -/
theorem standings_of_isLocal {q : Pattern} (hq : q.isLocal = true) :
    q.standings false .onlyEven = .onlyEven := by
  induction q with
  | seq a b iha ihb =>
    rw [isLocal, Bool.and_eq_true] at hq
    rw [standings, iha hq.1, ihb hq.2]
  | alt a b iha ihb =>
    rw [isLocal, Bool.and_eq_true] at hq
    rw [standings, iha hq.1, ihb hq.2]
    rfl
  | star a ih | keep slot a ih =>
    simp only [standings, ih hq]
    rfl
  | notAfter cls =>
    rw [isLocal, Bool.not_eq_true'] at hq
    simp only [standings, hq]
    rfl
  | empty | edge | lineStart => rfl
  | one cls | run greed cls => simp [standings, Standings.onlyEven]
  | ahead | textStart | textEnd => cases hq

theorem isLocal_append (a b : Pattern) : (a ++ b).isLocal = (a.isLocal && b.isLocal) := by
  show (a.followedBy b).isLocal = _
  induction a with
  | seq c d _ ihd => rw [followedBy, isLocal, ihd, isLocal, Bool.and_assoc]
  | _ => rfl

theorem isLocal_literal (w : Text) : (literal w).isLocal = true := by
  induction w with
  | nil => rfl
  | cons c w ih =>
    cases w with
    | nil => rfl
    | cons d w => exact ih

theorem isLocal_anyWord (names : List String) : (anyWord names).isLocal = true := by
  unfold anyWord
  induction names with
  | nil => rfl
  | cons name names ih =>
    cases names with
    | nil => exact isLocal_literal name.toList
    | cons other names =>
      show ((Pattern.text name).isLocal && (anyOf ((other :: names).map Pattern.text)).isLocal) = true
      rw [ih, Bool.and_true]
      exact isLocal_literal name.toList

/-- The tables are known, or there are no carriage returns to be told apart. -/
def Serves (r : Respacing) (p : Platform) : Prop :=
  r.returns = true → p = .nt8

/-- **A pattern made from the tables** is steady if it is on the known ones. -/
theorem steady_of_serves {q : Platform → Pattern} (hserves : r.Serves p)
    (hknown : isSteady (q .nt8) = true) (hlocal : (q p).isLocal = true)
    (hstart : (q p).NoStart ['\n'] ∧ (q p).NoStart ['\r']) : r.Steady (q p) := by
  cases hr : r.returns with
  | true =>
    rw [hserves hr]
    exact steady_of_isSteady hknown
  | false =>
    refine ⟨?_, hstart.1, hstart.2⟩
    rw [hr]
    exact standings_of_isLocal hlocal

/-- The calls that create indicators, by the names in the tables. -/
theorem steady_factory (hserves : r.Serves p) : r.Steady (Skeleton.indicatorCreation p) := by
  have hstart : ∀ c, isTerminator c = true → (Skeleton.indicatorCreation p).NoStart [c] := by
    intro c hc
    unfold Skeleton.indicatorCreation
    simp only [append_assoc]
    exact noStart_terminator (by decide) _ hc
  refine steady_of_serves hserves (by decide) ?_ ⟨hstart '\n' rfl, hstart '\r' rfl⟩
  unfold Skeleton.indicatorCreation
  simp only [isLocal_append, isLocal_anyWord]
  decide

/-- The assignments that create them. -/
theorem steady_assignment (hserves : r.Serves p) : r.Steady (Resource.indicatorCreation p) := by
  have hstart : ∀ c, isTerminator c = true → (Resource.indicatorCreation p).NoStart [c] := by
    intro c hc
    unfold Resource.indicatorCreation
    rw [append_assoc, append_assoc, append_assoc]
    exact noStart_terminator (by decide) _ hc
  refine steady_of_serves hserves (by decide) ?_ ⟨hstart '\n' rfl, hstart '\r' rfl⟩
  unfold Resource.indicatorCreation
  simp only [isLocal_append, isLocal, isLocal_anyWord]
  decide

/-! ## Rules that read the script -/

/-- The second source is the respaced first one. -/
structure Respaced (r : Respacing) (src src' : Source) : Prop where
  fits : r.Fits src.code
  code : src'.code = r.text src.code

/-- The masks of two scripts that are respaced are respaced. -/
theorem Respaced.masked {src src' : Source} (h : r.Respaced src src') :
    src'.masked = r.text src.masked := by
  rw [src'.masked_eq, h.code, mask_text h.fits, src.masked_eq]

theorem Respaced.fits_masked {src src' : Source} (h : r.Respaced src src') : r.Fits src.masked := by
  rw [src.masked_eq]
  exact fits_mask h.fits

/-- The mask has the places of the script. -/
theorem place_masked (src : Source) : r.place src.masked = r.place src.code := by
  rw [src.masked_eq, place_mask]

/-- **The findings follow the script** and its mask. -/
def FollowsSource (r : Respacing) (find : Source → List Finding) : Prop :=
  ∀ src src', r.Respaced src src' → (find src').map r.shown = (find src).map (r.shown ∘ r.moved)

/-- Findings on the whole script stay where they are. -/
theorem map_moved_of_whole {fs : List Finding} (h : ∀ f ∈ fs, f.line = 0) :
    fs.map (r.shown ∘ r.moved) = fs.map r.shown := by
  refine List.map_congr_left (fun f hf => ?_)
  rw [Function.comp_apply, moved, h f hf, lineNo, if_pos rfl, ← h f hf]

theorem eq_of_mem_wholeIf {holds : Bool} {f g : Finding} (h : g ∈ Skeleton.wholeIf holds f) : g = f := by
  unfold Skeleton.wholeIf at h
  split at h
  · exact List.mem_singleton.mp h
  · cases h

/-- The line feeds in front of an offset are those in front of an earlier one and those in between. -/
theorem count_slice (t : Text) {a b : Nat} (h : a ≤ b) :
    (t.take b).count '\n' = (t.take a).count '\n' + (t.slice a b).count '\n' := by
  have hsplit := List.take_append_drop a (t.take b)
  rw [List.take_take, Nat.min_eq_left h] at hsplit
  conv_lhs => rw [← hsplit]
  exact List.count_append

/-- Line breaks are shown by the mask. -/
theorem not_mem_slice_of_mask {code : Text} {a b : Nat}
    (h : '\n' ∉ (Lexing.mask code).slice a b) : '\n' ∉ code.slice a b := by
  rcases Nat.le_total a b with hab | hab
  · have hmask := count_slice (Lexing.mask code) hab
    have hcode := count_slice code hab
    have hcount : ∀ n, ((Lexing.mask code).take n).count '\n' = (code.take n).count '\n' :=
      fun n => Lexing.count_take_maskFrom .ground code n
    rw [List.count_eq_zero.mpr h, hcount, hcount] at hmask
    exact List.count_eq_zero.mp (by omega)
  · rw [slice, List.drop_of_length_le (by rw [List.length_take]; omega)]
    exact List.not_mem_nil

/-- A part that the mask shows without a line break has none in the script. -/
theorem not_mem_part_code {q : Pattern} {src : Source} {m : Match} (hm : Found q src.masked m)
    (slot : Slot) (hq : ∀ a ∈ q.keptBy slot, a.avoids '\n' = true) : '\n' ∉ m.part slot src.code := by
  have hfeed : ∀ c ∈ m.part slot src.masked, c ≠ '\n' := by
    refine hm.forall_mem_part (fun a ha x w u hacc c hc => ?_)
    rintro rfl
    exact not_mem_of_accepts (hq a ha) hacc hc
  rw [src.masked_eq] at hfeed
  exact not_mem_slice_of_mask (fun hmem => hfeed '\n' hmem rfl)

/-- Such a part is the same part of the script. -/
theorem part_code {q : Pattern} {src : Source} {m : Match} (hm : Found q src.masked m) (slot : Slot)
    (hq : ∀ a ∈ q.keptBy slot, a.avoids '\n' = true) :
    (m.moved (r.place src.masked)).part slot (r.text src.code) = m.part slot src.code := by
  have hstop := (hm.span_le slot).2
  have hunbroken := not_mem_part_code hm slot hq
  rw [place_masked, Match.part, span_moved]
  rw [src.masked_eq, Lexing.length_mask] at hstop
  exact (within_text src.code hstop).trans (inner_of_not_mem hunbroken)

/-! ## The skeleton -/

/-- The patterns of the methods and states that every script has to have. -/
theorem steady_lifecycle :
    r.Steady (Skeleton.protectedOverride "OnStateChange")
      ∧ r.Steady (Skeleton.protectedOverride "OnBarUpdate")
      ∧ r.Steady (Skeleton.stateBranch "SetDefaults") ∧ r.Steady (Skeleton.stateBranch "Configure")
      ∧ r.Steady (Skeleton.stateBranch "DataLoaded") ∧ r.Steady Skeleton.seriesCreation :=
  ⟨steady_of_isSteady (by decide), steady_of_isSteady (by decide), steady_of_isSteady (by decide),
    steady_of_isSteady (by decide), steady_of_isSteady (by decide), steady_of_isSteady (by decide)⟩

/-- **The findings on the life cycle** follow the script. -/
theorem follows_lifecycle (hserves : r.Serves p) : r.FollowsSource (Skeleton.lifecycle p) := by
  intro src src' h
  obtain ⟨hchange, hupdate, hdefaults, hconfigure, hloaded, hseries⟩ := steady_lifecycle (r := r)
  have hsame : Skeleton.lifecycle p src' = Skeleton.lifecycle p src := by
    simp only [Skeleton.lifecycle, Skeleton.createsSeries, h.code, h.masked,
      occursIn_text hchange h.fits, occursIn_text hupdate h.fits, occursIn_text hdefaults h.fits,
      occursIn_text hconfigure h.fits, occursIn_text hloaded h.fits,
      occursIn_text hseries h.fits_masked, occursIn_text (steady_factory hserves) h.fits_masked]
  rw [hsame, map_moved_of_whole]
  intro f hf
  unfold Skeleton.lifecycle at hf
  simp only at hf
  rcases List.mem_append.mp hf with hf | hf
  · split at hf
    · rw [List.mem_singleton.mp hf]
      rfl
    · rcases List.mem_append.mp hf with hf | hf
      · rcases List.mem_append.mp hf with hf | hf <;> rw [eq_of_mem_wholeIf hf] <;> rfl
      · rw [eq_of_mem_wholeIf hf]
        rfl
  · rw [eq_of_mem_wholeIf hf]
    rfl

theorem steady_defaults :
    r.Steady Skeleton.nameDefault ∧ r.Steady Skeleton.descriptionDefault
      ∧ r.Steady Skeleton.calculateDefault :=
  ⟨steady_of_isSteady (by decide), steady_of_isSteady (by decide), steady_of_isSteady (by decide)⟩

/-- **The findings on defaults** follow the script. They are about the code, not about its mask. -/
theorem follows_defaults : r.FollowsSource (fun src => Skeleton.defaults src.code) := by
  intro src src' h
  obtain ⟨hname, hdescription, hcalculate⟩ := steady_defaults (r := r)
  have hsame : Skeleton.defaults src'.code = Skeleton.defaults src.code := by
    unfold Skeleton.defaults
    rw [h.code, occursIn_text hname h.fits, occursIn_text hdescription h.fits,
      occursIn_text hcalculate h.fits]
  simp only [hsame]
  rw [map_moved_of_whole]
  intro f hf
  unfold Skeleton.defaults at hf
  rcases List.mem_append.mp hf with hf | hf
  · rcases List.mem_append.mp hf with hf | hf <;> rw [eq_of_mem_wholeIf hf] <;> rfl
  · rw [eq_of_mem_wholeIf hf]
    rfl

theorem steady_namespace : r.Steady namespaceDeclaration :=
  steady_of_isSteady (by decide)

/-- **The findings on the namespace** follow the script. -/
theorem follows_packaging (base : String) : r.FollowsSource (Skeleton.packaging p base) := by
  intro src src' h
  unfold Skeleton.packaging
  rw [h.code, h.masked, find?_text steady_namespace h.fits_masked]
  cases hm : namespaceDeclaration.find? src.masked with
  | none => rfl
  | some m =>
    have hfound := found_of_find? hm
    have hline := lineOf_start (r := r) hfound
    have hpath := part_code (r := r) hfound .name (by decide)
    simp only [Option.map_some]
    rw [hpath]
    split
    · rfl
    · simp only [List.map_cons, List.map_nil, Function.comp_apply, shown, moved, Finding.error, hline]

/-! ## Signals -/

/-- The patterns of what strategies enter, guard and manage. -/
theorem steady_signals :
    r.Steady Skeleton.entrySignal ∧ r.Steady Skeleton.riskSignal ∧ r.Steady Skeleton.entryMethod
      ∧ r.Steady Skeleton.positionManagement ∧ r.Steady (literal "OnExecutionUpdate".toList) :=
  ⟨steady_of_isSteady (by decide), steady_of_isSteady (by decide), steady_of_isSteady (by decide),
    steady_of_isSteady (by decide), steady_of_isSteady (by decide)⟩

/-- Texts without carriage returns are told apart by any spelling. -/
theorem inner_inj {s t : Text} (hs : r.Fits s) (ht : r.Fits t) : r.inner s = r.inner t ↔ s = t := by
  constructor
  · intro heq
    cases hr : r.returns with
    | false => rwa [inner_of_not_returns hr, inner_of_not_returns hr] at heq
    | true =>
      have hclean : ∀ {u : Text}, r.Fits u → u.filter (· != '\r') = u := by
        intro u hu
        rw [List.filter_eq_self]
        intro c hc
        rw [bne_iff_ne]
        rintro rfl
        exact hu hr hc
      rw [← hclean hs, ← hclean ht, ← filter_inner (r := r) s, heq, filter_inner]
  · rintro rfl
    rfl

/-- Respelling tells signals apart as they are told apart in the script. -/
theorem contains_map_inner {ls : List Text} (hls : ∀ l ∈ ls, r.Fits l) {t : Text} (ht : r.Fits t) :
    (ls.map r.inner).contains (r.inner t) = ls.contains t := by
  rw [Bool.eq_iff_iff, List.contains_iff_mem, List.contains_iff_mem, List.mem_map]
  constructor
  · rintro ⟨l, hl, heq⟩
    rwa [← (inner_inj (hls l hl) ht).mp heq]
  · exact fun hmem => ⟨t, hmem, rfl⟩

/-- The same characters are hidden in both scripts. -/
theorem Respaced.isBlanked {src src' : Source} (h : r.Respaced src src') {n : Nat}
    (hn : n ≤ src.code.length) : src'.isBlanked (r.place src.code n) = src.isBlanked n := by
  have hblank := isBlanked_text h.fits hn
  unfold Source.isBlanked at hblank ⊢
  rw [h.masked, h.code]
  rw [src.masked_eq, ← mask_text h.fits]
  exact hblank

/-- A match in the script starts in a comment or a literal where its match in the respaced one does.
-/
theorem Respaced.inToken {src src' : Source} (h : r.Respaced src src') {q : Pattern} (hq : r.Steady q)
    (hempty : q.mayBeEmpty = false) {m : Match} (hm : m ∈ q.findAll src.code) :
    src'.inToken (m.moved (r.place src.code)).start = src.inToken m.start := by
  have hmoved : m.moved (r.place src.code) ∈ q.findAll src'.code := by
    rw [h.code, findAll_text hq h.fits]
    exact List.mem_map_of_mem hm
  have hbounds := (found_of_mem_findAll hm).bounds
  rw [inToken_of_mem_findAll hempty hmoved, inToken_of_mem_findAll hempty hm, Match.moved,
    h.isBlanked (Nat.le_trans hbounds.1 hbounds.2)]

theorem fits_part {t : Text} (hfits : r.Fits t) (m : Match) (slot : Slot) : r.Fits (m.part slot t) :=
  (hfits.take _).drop _

/-- **The signals** that the script enters with. -/
theorem entrySignals_text {src src' : Source} (h : r.Respaced src src') :
    Skeleton.entrySignals src' = (Skeleton.entrySignals src).map (List.map r.inner) := by
  have hvisible : (Skeleton.entrySignal.findAll src.code).filter
      ((fun m => !src'.isBlanked m.start) ∘ Match.moved (r.place src.code))
      = (Skeleton.entrySignal.findAll src.code).filter (fun m => !src.isBlanked m.start) := by
    refine List.filter_congr (fun m hm => ?_)
    have hbounds := (found_of_mem_findAll hm).bounds
    exact congrArg not (h.isBlanked (Nat.le_trans hbounds.1 hbounds.2))
  rw [Skeleton.entrySignals_eq, Skeleton.entrySignals_eq, map_ok, h.code,
    findAll_text steady_signals.1 h.fits, List.filter_map, List.map_map, List.map_map, hvisible]
  refine congrArg Except.ok (List.map_congr_left (fun m hm => ?_))
  exact part_moved (found_of_mem_findAll (List.mem_of_mem_filter hm)) .name

/-- A stop or a target whose signal is unknown is one in both scripts. -/
theorem riskFinding?_text {src src' : Source} (h : r.Respaced src src') {known : List Text}
    (hknown : ∀ signal ∈ known, r.Fits signal) {m : Match} (hm : m ∈ Skeleton.riskSignal.findAll src.code) :
    (Skeleton.riskFinding? src' (known.map r.inner) (m.moved (r.place src.code))).map (Option.map r.shown)
      = (Skeleton.riskFinding? src known m).map (Option.map (r.shown ∘ r.moved)) := by
  obtain ⟨-, hrisk, -⟩ := steady_signals (r := r)
  have hfound := found_of_mem_findAll hm
  have hline := lineOf_start (r := r) hfound
  unfold Skeleton.riskFinding?
  rw [h.inToken hrisk Skeleton.mayBeEmpty_signals.2 hm, h.code, part_moved hfound,
    contains_map_inner hknown (fits_part h.fits m .name)]
  cases src.inToken m.start with
  | error fault => rfl
  | ok hidden =>
    simp only [map_ok]
    split
    · rfl
    · simp only [Option.map_some, Function.comp_apply, Skeleton.unknownSignal, h.code,
        part_unbroken hfound .kind (by decide), part_moved hfound, shown, moved, Finding.error, hline,
        clean_append, clean_quote]

/-- **The findings on signals** follow the script: whether a signal counts depends on its place and
on the signals that the script enters with, and both move along. -/
theorem signals_text {src src' : Source} (h : r.Respaced src src') :
    r.Alike (Skeleton.signals src') (Skeleton.signals src) := by
  obtain ⟨-, hrisk, hentry, hmanage, hexecution⟩ := steady_signals (r := r)
  obtain ⟨known, hknown, hfits⟩ : ∃ known, Skeleton.entrySignals src = .ok known
      ∧ ∀ signal ∈ known, r.Fits signal := by
    refine ⟨_, Skeleton.entrySignals_eq src, fun signal hsignal => ?_⟩
    obtain ⟨m, -, rfl⟩ := List.mem_map.mp hsignal
    exact fits_part h.fits m .name
  unfold Skeleton.signals
  rw [entrySignals_text h, hknown, map_ok, ok_bind, ok_bind, isPartOf_eq_occursIn, isPartOf_eq_occursIn,
    h.masked, occursIn_text hentry h.fits_masked, occursIn_text hmanage h.fits_masked,
    occursIn_text hexecution h.fits_masked, h.code]
  refine (alike_filterMapM hrisk h.fits (fun m hm => riskFinding?_text h hfits hm)).bind
    (fun fs' fs hfs => alike_ok ?_)
  simp only [List.map_append, hfs]
  congr 1
  · congr 1
    rw [map_moved_of_whole]
    exact fun f hf => by rw [eq_of_mem_wholeIf hf]; rfl
  · rw [map_moved_of_whole]
    exact fun f hf => by rw [eq_of_mem_wholeIf hf]; rfl

theorem steady_class : r.Steady classDeclaration :=
  steady_of_isSteady (by decide)

/-- **The skeleton** follows the script. -/
theorem skeleton_text (hserves : r.Serves p) {src src' : Source} (h : r.Respaced src src') :
    r.Alike (Skeleton.findings p src') (Skeleton.findings p src) := by
  unfold Skeleton.findings
  rw [h.code, find?_text steady_class h.fits]
  cases hm : classDeclaration.find? src.code with
  | none => rfl
  | some m =>
    have hfound := found_of_find? hm
    have hdefaults := follows_defaults src src' h
    simp only [h.code] at hdefaults
    have halways : ∀ base, (Skeleton.lifecycle p src' ++ Skeleton.defaults (r.text src.code)
          ++ Skeleton.packaging p base src').map r.shown
        = (Skeleton.lifecycle p src ++ Skeleton.defaults src.code
          ++ Skeleton.packaging p base src).map (r.shown ∘ r.moved) := by
      intro base
      simp only [List.map_append]
      rw [follows_lifecycle hserves src src' h, hdefaults, follows_packaging _ src src' h]
    simp only [Option.map_some]
    rw [part_unbroken hfound .kind (by decide)]
    split
    · refine (signals_text h).map (fun fs' fs hfs => ?_)
      rw [List.map_append, halways, hfs, ← List.map_append]
    · exact alike_ok (halways _)

end Respacing

end ChartLint
