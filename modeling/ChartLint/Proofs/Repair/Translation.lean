import ChartLint.Proofs.Lexing.Layout
import ChartLint.Proofs.Repair.Insertion
import ChartLint.Proofs.Respacing.Skeleton
import ChartLint.Proofs.Respacing.Splice

/-!
# Repair of a respaced script

The repair finds each declaration at the place of its offset, sees the attributes above it as before,
and inserts the same blocks, spelled with the other line break (`run_text_of_fitting`). It asks two
things of a property: that its declaration and its companion are found whatever the spacing, and that
its name is spelled as it is (`Fitting`). Every word is such a name (`fitting_of_isWord`), and so is
every text when only empty lines are put in front; then the repaired script is moved down like the
script (`run_text`).
-/

namespace ChartLint.Repair

open Text Pattern Source Rule Respacing

variable {r : Respacing}

/-! ## Names -/

/-- **The name fits the respacing.** -/
structure Fitting (r : Respacing) (prop : Text) : Prop where
  declaration : r.Steady (Brush.declarationOf (literal prop))
  companion : r.Steady (Brush.companion prop)
  spelled : r.inner prop = prop
  fits : r.Fits prop

theorem steady_of_isLocal (hr : r.returns = false) {p : Pattern} (hp : p.isLocal = true)
    (hstart : ∀ c, isTerminator c = true → p.NoStart [c]) : r.Steady p := by
  refine ⟨?_, hstart '\n' rfl, hstart '\r' rfl⟩
  rw [hr]
  exact standings_of_isLocal hp

/-- Without carriage returns every name fits. -/
theorem fitting_of_not_returns (hr : r.returns = false) (prop : Text) : Fitting r prop where
  declaration := by
    apply steady_of_isLocal hr
    · unfold Brush.declarationOf
      simp only [isLocal_append, isLocal_literal]
      decide
    · intro c hc
      unfold Brush.declarationOf
      simp only [append_assoc]
      exact noStart_terminator (by decide) _ hc
  companion := by
    apply steady_of_isLocal hr
    · unfold Brush.companion
      simp only [isLocal_append, isLocal_literal]
      decide
    · intro c hc
      unfold Brush.companion
      simp only [append_assoc]
      exact noStart_terminator (by decide) _ hc
  spelled := inner_of_not_returns hr prop
  fits := fits_of_not_returns hr prop

/-- **A word fits.** -/
theorem fitting_of_isWord {prop : Text} (hne : prop ≠ []) (hprop : ∀ c ∈ prop, isWord c = true) :
    Fitting r prop where
  declaration := by
    have h := r.steady_around ("public" ++ gap ++ "Brush" ++ gap) (blanks ++ openBrace) hne
      (unbroken_of_isWord hprop) (by decide) (by decide) (fun c hc => noStart_terminator (by decide) _ hc)
    unfold Brush.declarationOf
    simpa only [append_assoc] using h
  companion := steady_companion hne (unbroken_of_isWord hprop)
  spelled := inner_of_not_mem (unbroken_of_isWord hprop).1
  fits := fits_of_not_mem (unbroken_of_isWord hprop).2

theorem declaration?_text {t prop : Text} (hprop : Fitting r prop) (hfits : r.Fits t) :
    declaration? (r.text t) prop = (declaration? t prop).map (Match.moved (r.place t)) :=
  find?_text hprop.declaration hfits

/-! ## The line of a declaration -/

theorem start_le {code prop : Text} {m : Match} (h : declaration? (Lexing.mask code) prop = some m) :
    m.start ≤ code.length := by
  have hbounds := (found_of_find? h).bounds
  rw [Lexing.length_mask] at hbounds
  omega

/-- The end of a line is no part of its indentation. -/
theorem indent_append_ending (l x : Text) : indent (l ++ r.ending x) = indent l := by
  have hend : (r.ending x).takeWhile (fun c => c == ' ' || c == '\t') = [] := by
    rw [ending, lineEnd]
    split
    · split <;> rfl
    · rfl
  rw [indent, indent, List.takeWhile_append, hend, List.append_nil]
  split
  · next hlength => exact ((List.takeWhile_prefix _).eq_of_length hlength).symm
  · rfl

/-- A line is indented as it is in the script. -/
theorem indentOf_text {code : Text} {n : Nat} (hn : n ≤ code.length) :
    indentOf (r.text code) (r.place code n) = indentOf code n := by
  obtain ⟨g, x, rfl, rfl⟩ := exists_append hn
  rw [place_append, text_append, indentOf_append, indentOf_append, ownLine_text, indent_append_ending]

theorem inner_indentOf (code : Text) (n : Nat) : r.inner (indentOf code n) = indentOf code n := by
  apply inner_of_not_mem
  intro hmem
  cases isIndent_indentOf code n _ hmem

/-- A line starts at the place where it starts in the script. -/
theorem lineStartAt_text {code : Text} {n : Nat} (hn : n ≤ code.length) :
    lineStartAt (r.text code) (r.place code n) = r.place code (lineStartAt code n) := by
  have hstart := r.place_lineStart hn
  obtain ⟨g, x, rfl, rfl⟩ := exists_append hn
  rw [List.take_left] at hstart
  rw [lineStartAt_append, hstart, place_append, text_append, lineStartAt_append, lineFront_text]

/-- The attribute is seen on a declaration that has moved. -/
theorem isIgnored_moved {code : Text} (hfits : r.Fits code) {n : Nat} (hn : n ≤ code.length) :
    Brush.isIgnored? (lines (r.text (Lexing.mask code))) (lineOf (r.text code) (r.place code n))
      = Brush.isIgnored? (lines (Lexing.mask code)) (lineOf code n) := by
  rw [← Lexing.lineOf_mask (r.text code), ← Lexing.lineOf_mask code, mask_text hfits]
  have hmask : n ≤ (Lexing.mask code).length := by rwa [Lexing.length_mask]
  rw [← place_mask]
  obtain ⟨g, x, hsplit, rfl⟩ := exists_append hmask
  rw [hsplit, place_append]
  exact isIgnored_text g x

/-! ## The two insertions -/

section Insertions

variable {newline code prop : Text} (hprop : Fitting r prop) (hfits : r.Fits code)

include hprop hfits

/-- **The attribute** is put where it is put in the script. -/
theorem addAttribute_text :
    addAttribute (r.inner newline) (r.text code) prop = r.text (addAttribute newline code prop) := by
  rw [addAttribute_def, addAttribute_def, mask_text hfits, declaration?_text hprop (fits_mask hfits)]
  cases hm : declaration? (Lexing.mask code) prop with
  | none => rfl
  | some m =>
    have hstart := start_le hm
    simp only [Option.map_some]
    rw [place_mask, Match.moved, isIgnored_moved hfits hstart, lineStartAt_text hstart, indentOf_text hstart]
    split
    · rfl
    · have hspelled : indentOf code m.start ++ "[XmlIgnore]".toList ++ r.inner newline
          = r.inner (indentOf code m.start ++ "[XmlIgnore]".toList ++ newline) := by
        rw [inner_append, inner_append, inner_indentOf, inner_of_not_mem (t := "[XmlIgnore]".toList) (by decide)]
      rw [hspelled]
      exact insertAt_text (startsLine_lineStartAt code hstart).1 _

omit hprop hfits in
theorem declarationEnd_le {t : Text} {close : Nat} (hclose : close < t.length) :
    declarationEnd t close ≤ t.length := by
  unfold declarationEnd
  cases hm : initialValue.matchAt? (Cursor.ofOffset t (close + 1)) with
  | none => exact hclose
  | some m =>
    obtain ⟨w, rest, hsplit, -, -, hstop⟩ := accepts_of_matchAt? hm
    have hlength := congrArg List.length hsplit
    rw [List.length_drop, List.length_append] at hlength
    simp only [hstop]
    omega

omit hprop hfits in
/-- What ends behind a character that is no line break ends at its place. -/
theorem declarationEnd_text {t : Text} (hfits : r.Fits t) {close : Nat} (hclose : close < t.length)
    (hchar : t[close]? ≠ some '\n') :
    declarationEnd (r.text t) (r.place t close) = r.place t (declarationEnd t close) := by
  have hmatch := matchAt?_even (steady_of_isSteady (p := initialValue) (by decide))
    (r.place_strictMono t) (even_ofOffset hfits hclose)
  unfold declarationEnd
  rw [← place_succ hchar, hmatch]
  cases initialValue.matchAt? (Cursor.ofOffset t (close + 1)) <;> rfl

omit hfits in
/-- The block of a companion, spelled with the other line break. -/
theorem companionBlock_text {indent : Text} (hindent : r.inner indent = indent) :
    companionBlock (r.inner newline) indent prop = r.inner (companionBlock newline indent prop) := by
  have hplain : ∀ s : String, ('\n' ∈ s.toList) = False → r.inner s.toList = s.toList :=
    fun s hs => inner_of_not_mem (by rw [hs]; exact id)
  have hbraces : r.inner ['{'] = ['{'] ∧ r.inner ['}'] = ['}'] :=
    ⟨inner_of_not_mem (by decide), inner_of_not_mem (by decide)⟩
  have hending : r.inner Brush.companionEnding = Brush.companionEnding :=
    inner_of_not_mem (by decide)
  unfold companionBlock
  simp only [inner_append, hindent, hprop.spelled, hbraces, hending]
  rw [hplain "[Browsable(false)]" (by decide), hplain "public string " (by decide),
    hplain "    get \x7b return Serialize.BrushToString(" (by decide), hplain "); \x7d" (by decide),
    hplain "    set \x7b " (by decide), hplain " = Serialize.StringToBrush(value); \x7d" (by decide)]

/-- **The companion** is put where it is put in the script. -/
theorem addCompanion_text :
    addCompanion (r.inner newline) (r.text code) prop = r.text (addCompanion newline code prop) := by
  have hmasked := fits_mask hfits
  rw [addCompanion_def, addCompanion_def, mask_text hfits, occursIn_text hprop.companion hmasked, declaration?_text hprop hmasked]
  split
  · rfl
  · cases hm : declaration? (Lexing.mask code) prop with
    | none => rfl
    | some m =>
      have hindent := indentOf_text (r := r) (start_le hm)
      obtain ⟨opener, hstop, hopener, hchar⟩ := opener_of_found (found_of_find? hm)
      -- the match stops behind the opening brace, which is no line break
      have hplace : r.place code m.stop - 1 = r.place (Lexing.mask code) opener := by
        rw [← place_mask code, hstop, place_succ hchar, Nat.add_sub_cancel]
      simp only [Option.map_some]
      rw [place_mask, Match.moved, hindent, hplace, matchingBrace_text hopener, length_text, place_mask,
        hstop, Nat.add_sub_cancel]
      simp only [(r.place_strictMono code).le_iff_le]
      split
      · rfl
      · next hclosed =>
        have hclose : matchingBrace (Lexing.mask code) opener < (Lexing.mask code).length := by
          rw [Lexing.length_mask]
          omega
        rw [← place_mask, declarationEnd_text hmasked hclose getElem?_matchingBrace, place_mask,
          companionBlock_text hprop (inner_indentOf code m.start)]
        refine insertAt_text ?_ _
        rw [← Lexing.length_mask code]
        exact declarationEnd_le hclose

/-! ## The whole repair -/

theorem mend_text (hmended : r.Fits (addAttribute newline code prop)) :
    addCompanion (r.inner newline) (addAttribute (r.inner newline) (r.text code) prop) prop
      = r.text (addCompanion newline (addAttribute newline code prop) prop) := by
  rw [addAttribute_text hprop hfits, addCompanion_text hprop hmended]

end Insertions

section Blocks

variable {newline : Text} (hnewline : r.Fits newline)

include hnewline

theorem fits_addAttribute {code : Text} (prop : Text) (hfits : r.Fits code) :
    r.Fits (addAttribute newline code prop) := by
  rcases addAttribute_cases newline code prop with heq | ⟨offset, indent, -, hindent, heq⟩
  · rwa [heq]
  · rw [heq]
    refine hfits.splice ((Fits.append ?_ (fits_of_not_mem (by decide))).append hnewline) _ _
    refine fits_of_not_mem (fun hmem => ?_)
    cases hindent _ hmem

theorem fits_companionBlock {indent prop : Text} (hindent : r.Fits indent) (hprop : r.Fits prop) :
    r.Fits (companionBlock newline indent prop) := by
  have hplain : ∀ {t : Text}, t.contains '\r' = false → r.Fits t :=
    fun ht => fits_of_not_mem (by simpa using ht)
  have hline : ∀ {t : Text}, r.Fits t → r.Fits (newline ++ indent ++ t) :=
    fun ht => (hnewline.append hindent).append ht
  unfold companionBlock
  refine Fits.append (.append (.append (.append (.append (.append hnewline (hline ?_)) (hline ?_))
    (hline ?_)) (hline ?_)) (hline ?_)) (hline ?_)
  · exact hplain (by decide)
  · exact ((hplain (by decide)).append hprop).append (hplain (by decide))
  · exact hplain (by decide)
  · exact ((hplain (by decide)).append hprop).append (hplain (by decide))
  · exact ((hplain (by decide)).append hprop).append (hplain (by decide))
  · exact hplain (by decide)

theorem fits_addCompanion {code prop : Text} (hfits : r.Fits code) (hprop : r.Fits prop) :
    r.Fits (addCompanion newline code prop) := by
  rcases addCompanion_cases newline code prop with heq | ⟨a, c, b, indent, -, -, hindent, heq⟩
  · rwa [heq]
  · rw [heq]
    refine hfits.splice (fits_companionBlock hnewline ?_ hprop) _ _
    refine fits_of_not_mem (fun hmem => ?_)
    cases hindent _ hmem

/-- Mending one property after the other goes side by side. -/
theorem foldl_mend_text (props : List String) (hprops : ∀ prop ∈ props, Fitting r prop.toList)
    {code : Text} (hfits : r.Fits code) :
    props.foldl (mend (r.inner newline)) (r.text code) = r.text (props.foldl (mend newline) code) := by
  induction props generalizing code with
  | nil => rfl
  | cons prop props ih =>
    have hprop := hprops prop List.mem_cons_self
    have hattribute := fits_addAttribute hnewline prop.toList hfits
    rw [List.foldl_cons, List.foldl_cons, mend, mend, mend_text hprop hfits hattribute]
    exact ih (fun other hother => hprops other (List.mem_cons_of_mem prop hother))
      (fits_addCompanion hnewline hattribute hprop.fits)

end Blocks

/-- **The repair of a respaced script** is the respaced repair. -/
theorem run_text_of_fitting {issues : List Issue}
    (hprops : ∀ prop ∈ subjects issues, Fitting r prop.toList) {code : Text} (h : r.Suits code) :
    run issues (r.text code) = r.text (run issues code) := by
  rw [run_eq, run_eq, lineBreak_text h]
  exact foldl_mend_text (fits_lineBreak h.fits) (subjects issues) hprops h.fits

/-- **The repair of a script that is moved down.** -/
theorem run_text (hr : r.returns = false) (issues : List Issue) (code : Text) :
    run issues (r.text code) = r.text (run issues code) :=
  run_text_of_fitting (fun prop _ => fitting_of_not_returns hr prop.toList) (suits_of_not_returns hr code)

end ChartLint.Repair
