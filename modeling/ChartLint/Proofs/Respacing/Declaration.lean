import ChartLint.Proofs.Respacing.Finding
import ChartLint.Proofs.Rule.Readings

/-!
# Declarations and series of a respaced script

The findings on public properties, on the companions of brush properties and on secondary series
follow the script. The patterns of these rules are made from names that the script itself gives, so
that they are shown to be steady for every name without a line break.
-/

namespace ChartLint

/-- Sequences nest to the right. -/
theorem Pattern.append_assoc (p q q' : Pattern) : p ++ q ++ q' = p ++ (q ++ q') := by
  show (p.followedBy q).followedBy q' = p.followedBy (q.followedBy q')
  induction p with
  | seq a b _ ihb => rw [followedBy, followedBy, followedBy, ihb]
  | _ => rfl

namespace Respacing

open Text Pattern Source Rule

variable {r : Respacing}

/-! ## Patterns with a name in them -/

/-- The text has no line break, however it is spelled. -/
def Unbroken (w : Text) : Prop :=
  '\n' ∉ w ∧ '\r' ∉ w

/-- A word has no line break, since neither of the two characters belongs to words. -/
theorem unbroken_of_isWord {w : Text} (h : ∀ c ∈ w, isWord c = true) : Unbroken w := by
  constructor
  all_goals
    intro hmem
    have hword := h _ hmem
    revert hword
    decide

/-- A name gives up every stray, and leaves what is even. -/
theorem standings_literal {w : Text} (hne : w ≠ []) (hw : Unbroken w) (returns : Bool) {S : Standings}
    (hlate : S.late = false) :
    (literal w).standings returns S = ⟨S.even, false, false, S.lost⟩ := by
  -- one character of the name already drops the ways that stand inside a line break
  have hone : ∀ {c : Char} {S : Standings}, c ≠ '\n' → c ≠ '\r' → S.late = false →
      (Pattern.one (· == c)).standings returns S = ⟨S.even, false, false, S.lost⟩ := by
    intro c S hfeed hreturn hS
    have hf : ('\n' == c) = false := by simpa using hfeed.symm
    have hr : ('\r' == c) = false := by simpa using hreturn.symm
    simp [standings, hf, hr, hS]
  induction w generalizing S with
  | nil => exact absurd rfl hne
  | cons c w ih =>
    have hfeed : c ≠ '\n' := fun h => hw.1 (by simp [h])
    have hreturn : c ≠ '\r' := fun h => hw.2 (by simp [h])
    cases w with
    | nil => exact hone hfeed hreturn hlate
    | cons d w =>
      have hrest : Unbroken (d :: w) :=
        ⟨fun h => hw.1 (List.mem_cons_of_mem c h), fun h => hw.2 (List.mem_cons_of_mem c h)⟩
      show (literal (d :: w)).standings returns ((Pattern.one (· == c)).standings returns S) = _
      -- the induction is over the name with any standings in front, since each character has its own
      rw [hone hfeed hreturn hlate, ih (by simp) hrest rfl]

/-- **A name inside a pattern.** The ways that the front leaves open end at the name. -/
theorem steady_around (front back : Pattern) {w : Text} (hne : w ≠ []) (hw : Unbroken w)
    (hfront : ∀ returns, ∃ stray, front.standings returns .onlyEven = ⟨true, false, stray, false⟩)
    (hback : ∀ returns, back.standings returns .onlyEven = .onlyEven)
    (hstart : ∀ c, isTerminator c = true → (front ++ literal w).NoStart [c]) :
    r.Steady (front ++ (literal w ++ back)) := by
  refine ⟨?_, ?_, ?_⟩
  · obtain ⟨stray, hopen⟩ := hfront r.returns
    rw [standings_append, standings_append, hopen, standings_literal hne hw r.returns rfl]
    exact hback r.returns
  · rw [← append_assoc]
    exact (hstart '\n' rfl).followedBy back
  · rw [← append_assoc]
    exact (hstart '\r' rfl).followedBy back

/-- A pattern that starts at neither kind of line break does not start there with more behind it
either. -/
theorem noStart_terminator {p : Pattern} (h : p.startFree ['\n'] = true ∧ p.startFree ['\r'] = true)
    (q : Pattern) {c : Char} (hc : isTerminator c = true) : (p ++ q).NoStart [c] := by
  rcases (by simpa [isTerminator] using hc : c = '\n' ∨ c = '\r') with rfl | rfl
  · exact (noStart_of_startFree h.1).followedBy q
  · exact (noStart_of_startFree h.2).followedBy q

/-- A name starts at no line break. -/
theorem noStart_edge_literal {w : Text} (hne : w ≠ []) (hw : Unbroken w) {c : Char}
    (hc : isTerminator c = true) : (Pattern.edge ++ literal w).NoStart [c] := by
  rintro x b ⟨a₁, a₂, hsplit, hne', v, u, hrest, hacc⟩
  obtain ⟨_, w', rfl, ⟨rfl, -⟩, hliteral⟩ := accepts_append.mp hacc
  obtain rfl := accepts_literal.mp hliteral
  obtain ⟨d, w'', rfl⟩ := List.exists_cons_of_ne_nil hne
  -- a start inside `[c]` leaves nothing of it, so that the name starts with `c` itself
  have hd : c = d := by
    cases a₁ with
    | nil =>
      rw [List.nil_append] at hsplit
      rw [← hsplit] at hrest
      exact (List.cons.inj hrest).1
    | cons e a₁ =>
      rw [List.cons_append, List.cons.injEq] at hsplit
      exact absurd (List.append_eq_nil_iff.mp hsplit.2.symm).2 hne'
  subst hd
  rcases (by simpa [isTerminator] using hc : c = '\n' ∨ c = '\r') with rfl | rfl
  · exact hw.1 List.mem_cons_self
  · exact hw.2 List.mem_cons_self

section Names

variable {name : Text} (hne : name ≠ []) (hname : Unbroken name)

include hne hname

/-- A companion's name is that of the property with a word behind it: one literal, unbroken like the
name. -/
theorem steady_companion : r.Steady (Brush.companion name) := by
  have hwhole : Unbroken (name ++ Brush.companionEnding) :=
    ⟨fun h => (List.mem_append.mp h).elim hname.1 (by decide),
      fun h => (List.mem_append.mp h).elim hname.2 (by decide)⟩
  have h := r.steady_around ("public" ++ gap ++ "string" ++ gap) (blanks ++ openBrace)
    (by simp [hne]) hwhole (by decide) (by decide) (fun c hc => noStart_terminator (by decide) _ hc)
  unfold Brush.companion
  simpa only [append_assoc] using h

/-- The call that writes the brush names the property between its brackets. -/
theorem steady_writesBrush : r.Steady (Brush.writesBrush name) := by
  have h := r.steady_around ("Serialize.BrushToString" ++ blanks ++ "(" ++ blanks) (blanks ++ ")")
    hne hname (by decide) (by decide) (fun c hc => noStart_terminator (by decide) _ hc)
  unfold Brush.writesBrush
  simpa only [append_assoc] using h

/-- Here nothing but the edge of a word stands in front of the name. -/
theorem steady_readsBrush : r.Steady (Brush.readsBrush name) := by
  have h := r.steady_around .edge
    (blanks ++ "=" ++ blanks ++ "Serialize.StringToBrush" ++ blanks ++ "(" ++ blanks ++ "value"
      ++ blanks ++ ")") hne hname (by decide) (by decide)
    (fun c hc => noStart_edge_literal hne hname hc)
  unfold Brush.readsBrush
  simpa only [append_assoc] using h

end Names

/-! ## Parts of a declaration -/

/-- **A part without a line break** is the same part. -/
theorem part_unbroken {p : Pattern} {t : Text} {m : Match} (hm : Found p t m) (slot : Slot)
    (hp : ∀ q ∈ p.keptBy slot, q.avoids '\n' = true) :
    (m.moved (r.place t)).part slot (r.text t) = m.part slot t := by
  have hfeed : ∀ c ∈ m.part slot t, c ≠ '\n' := by
    refine hm.forall_mem_part (fun q hq x w u hacc c hc => ?_)
    rintro rfl
    exact not_mem_of_accepts (hp q hq) hacc hc
  rw [part_moved hm, inner_of_not_mem (fun hmem => hfeed '\n' hmem rfl)]

/-- A text stands in another one where its pattern occurs. -/
theorem isPartOf_eq_occursIn (w t : Text) : isPartOf w t = (literal w).occursIn t := by
  have hstart : ∀ (x : Option Char) (u : Text), (literal w).StartsAt x u ↔ w <+: u := by
    intro x u
    constructor
    · rintro ⟨v, u', rfl, hacc⟩
      rw [accepts_literal.mp hacc]
      exact List.prefix_append w u'
    · rintro ⟨u', rfl⟩
      exact ⟨w, u', rfl, accepts_literal.mpr rfl⟩
  have hoccurs : ∀ (x : Option Char) (u : Text), isPartOf w u = true ↔ (literal w).Occurs x u := by
    intro x u
    induction u generalizing x with
    | nil => rw [isPartOf, List.isEmpty_iff, occurs_nil, hstart, List.prefix_nil]
    | cons c u ih =>
      rw [isPartOf, Bool.or_eq_true, occurs_cons, hstart, List.isPrefixOf_iff_prefix, ih (some c)]
  rw [Bool.eq_iff_iff, occursIn_iff]
  exact hoccurs none t

/-! ## Properties -/

theorem steady_property : r.Steady Property.declaration :=
  steady_of_isSteady (by decide)

/-- The attributes that a setting has to carry are looked for in joined lines, where the pattern may
not see what ended a line. -/
theorem robust_attributes :
    r.Robust (literal "[NinjaScriptProperty".toList) ∧ r.Robust Property.display
      ∧ r.Robust Property.range :=
  ⟨robust_of_isRobust (by decide), robust_of_isRobust (by decide), robust_of_isRobust (by decide)⟩

/-- The attributes of a declaration are read up to the word that the declaration starts with. -/
theorem starts_public {x : Text} {y : Option Char} (h : Property.declaration.StartsAt y x) :
    "public".toList <+: x := by
  obtain ⟨w, u, rfl, hacc⟩ := h
  unfold Property.declaration at hacc
  simp only [append_assoc] at hacc
  obtain ⟨w₁, w₂, rfl, hpublic, -⟩ := accepts_append.mp hacc
  rw [accepts_text.mp hpublic, List.append_assoc]
  exact List.prefix_append _ _

/-- The attributes of a declaration are made of what stands in the text. -/
theorem fits_attributesOf {g x : Text} (hfits : r.Fits (g ++ x)) : r.Fits (Property.attributesOf g x) := by
  refine fits_joinLines hfits (fun l hl c hc => ?_)
  rcases List.mem_append.mp hl with hl | hl
  · have habove := (List.takeWhile_sublist _).subset (List.mem_reverse.mp hl)
    exact List.mem_append_left x (mem_of_mem_above (List.mem_of_mem_take habove) hc)
  · rw [List.mem_singleton] at hl
    rw [hl] at hc
    exact mem_of_mem_ownLine (upTo_subset _ _ hc)

section Attributes

variable {attributes attributes' : Text} (hjoined : Joined r attributes attributes')
  (hfits : r.Fits attributes) {line line' : Nat} (hline : ((line' : Nat) : Int) = r.lineNo (line : Nat))

include hjoined hfits hline

/-- The findings on missing attributes hang on the joined attributes alone. -/
theorem settingFindings_joined (name : String) :
    (Property.settingFindings attributes' line' name).map r.shown
      = (Property.settingFindings attributes line name).map (r.shown ∘ r.moved) := by
  unfold Property.settingFindings
  rw [isPartOf_eq_occursIn, isPartOf_eq_occursIn, occursIn_joined robust_attributes.1 hjoined hfits,
    occursIn_joined robust_attributes.2.1 hjoined hfits, List.map_append, List.map_append]
  congr 1
  all_goals
    split
    · rfl
    · simp only [List.map_cons, List.map_nil, Function.comp_apply, shown, moved, Finding.about,
        Finding.warning, hline]

/-- So do those on the range of a number. -/
theorem rangeFindings_joined (type name : String) :
    (Property.rangeFindings attributes' line' type name).map r.shown
      = (Property.rangeFindings attributes line type name).map (r.shown ∘ r.moved) := by
  unfold Property.rangeFindings
  rw [occursIn_joined robust_attributes.2.2 hjoined hfits]
  simp only
  split
  · simp only [List.map_cons, List.map_nil, Function.comp_apply, shown, moved, Finding.about,
      Finding.warning, hline]
  · split
    · simp only [List.map_cons, List.map_nil, Function.comp_apply, shown, moved, Finding.about,
        Finding.warning, hline]
    · rfl

end Attributes

/-- **The findings on properties** follow the script. -/
theorem follows_property : r.Follows Property.reports := by
  refine follows_flatMap steady_property (fun t m hfits hm => ?_)
  obtain ⟨g, x, rfl, hstart, hstart', y, hx⟩ := exists_start (r := r) hm
  have hline := lineOf_start (r := r) hm
  -- type and name are read in the match; the attributes in the lines above, which come back joined
  have hjoined := joined_attributesOf (r := r) (g := g) (starts_public hx)
  have hattributes := fits_attributesOf hfits
  unfold Property.reportsOn
  simp only
  rw [part_unbroken hm .kind (by decide), part_unbroken hm .name (by decide)]
  rw [hstart, hstart'] at hline ⊢
  simp only [text_append, List.take_left, List.drop_left] at hline ⊢
  split
  · rfl
  · rw [List.map_append, List.map_append, rangeFindings_joined hjoined hattributes hline]
    congr 1
    split
    · rfl
    · exact settingFindings_joined hjoined hattributes hline _

/-! ## Brush properties -/

theorem steady_brush : r.Steady Brush.declaration :=
  steady_of_isSteady (by decide)

/-- A brush property is named by a word. -/
theorem unbroken_brush {t : Text} {m : Match} (hm : Found Brush.declaration t m) :
    m.part .name t ≠ [] ∧ Unbroken (m.part .name t) := by
  refine ⟨hm.part_ne_nil (by decide) (by decide), unbroken_of_isWord ?_⟩
  refine hm.forall_mem_part (fun q hq x w u hacc => ?_)
  obtain rfl : q = word := List.mem_singleton.mp hq
  exact (accepts_many1.mp hacc).2

/-- The place behind a character that is no line break. -/
theorem place_succ {t : Text} {n : Nat} (h : t[n]? ≠ some '\n') :
    r.place t (n + 1) = r.place t n + 1 := by
  -- only a line feed makes the text grow
  have hextra : r.extra t[n]?.toList = 0 := by
    unfold extra
    split
    · rw [List.count_eq_zero]
      intro hmem
      exact h (Option.mem_toList.mp hmem)
    · rfl
  rw [place, place, List.take_add_one, extra_append, hextra]
  omega

/-- A slice up to a character that is no line break, or up to the end. -/
theorem slice_succ_text {t : Text} {a b : Nat} (hb : b ≤ t.length) (h : t[b]? ≠ some '\n') :
    (r.text t).slice (r.place t a) (r.place t b + 1) = r.inner (t.slice a (b + 1)) := by
  rcases Nat.lt_or_eq_of_le hb with hlt | rfl
  · rw [← place_succ h]
    exact slice_text t a hlt
  · -- at the end of the text there is no place behind the character; the slice stops short there
    have hclamp : ∀ (u : Text) (k : Nat), u.slice k (u.length + 1) = u.slice k u.length := by
      intro u k
      rw [slice, slice, List.take_of_length_le (Nat.le_succ _), List.take_length]
    rw [← length_text, hclamp, hclamp, length_text]
    exact slice_text t a (Nat.le_refl _)

/-- Where a brace is matched stands a closing brace, or the text ends: no line feed either way. -/
theorem getElem?_matchingBrace {t : Text} {opener : Nat} :
    t[matchingBrace t opener]? ≠ some '\n' := by
  rw [matchingBrace]
  cases hk : closingFrom? 0 opener (t.drop opener) with
  | none =>
    rw [Option.getD_none, List.getElem?_eq_none (Nat.le_refl _)]
    simp
  | some k =>
    obtain ⟨u, z, hrest, rfl⟩ := closingFrom?_eq_some hk
    have hchar : t[opener + u.length]? = some '}' := by
      rw [← List.getElem?_drop, hrest]
      simp
    rw [Option.getD_some, hchar]
    decide

/-- A declaration up to its brace ends with the brace. -/
theorem opener_of_found {p : Pattern} {t : Text} {m : Match} (hm : Found (p ++ openBrace) t m) :
    ∃ opener, m.stop = opener + 1 ∧ opener ≤ t.length ∧ t[opener]? ≠ some '\n' := by
  obtain ⟨g, x, u, rfl, hmatch⟩ := hm
  obtain ⟨w, v, rfl, hacc, -, hstop⟩ := accepts_of_matchAt? hmatch
  obtain ⟨w', _, rfl, -, d, rfl, hd⟩ := accepts_append.mp hacc
  obtain rfl : d = '{' := by simpa using hd
  refine ⟨(g ++ w').length, ?_, by simp, ?_⟩
  · rw [hstop]
    simp [Nat.add_assoc]
  · have hsplit : g ++ (w' ++ ['{'] ++ v) = (g ++ w') ++ '{' :: v := by simp
    rw [hsplit, List.getElem?_append_right (Nat.le_refl _), Nat.sub_self, List.getElem?_cons_zero]
    decide

/-- **The body of a companion** is the same body. It starts at the brace of the companion and ends
with the brace that matches, and a slice between two braces is only respelled inside. -/
theorem companionBody?_text {prop t : Text} (hne : prop ≠ []) (hprop : Unbroken prop)
    (hfits : r.Fits t) :
    Brush.companionBody? (r.text t) prop = (Brush.companionBody? t prop).map r.inner := by
  unfold Brush.companionBody?
  rw [find?_text (steady_companion hne hprop) hfits]
  cases hm : (Brush.companion prop).find? t with
  | none => rfl
  | some m =>
    obtain ⟨opener, hstop, hle, hchar⟩ := opener_of_found (found_of_find? hm)
    -- the match ends behind its brace, which is no line break: its place is one in front of that end
    have hplace : (m.moved (r.place t)).stop - 1 = r.place t opener := by
      rw [Match.moved, hstop, place_succ hchar, Nat.add_sub_cancel]
    simp only [Option.map_some, hplace, hstop, Nat.add_sub_cancel]
    rw [matchingBrace_text hle, slice_succ_text (matchingBrace_le hle).2 getElem?_matchingBrace]

/-- Whether a companion converts is read in its body alone. -/
theorem converts_text {prop t : Text} (hne : prop ≠ []) (hprop : Unbroken prop) (hfits : r.Fits t) :
    Brush.converts (r.text t) prop = Brush.converts t prop := by
  unfold Brush.converts
  rw [companionBody?_text hne hprop hfits]
  cases hbody : Brush.companionBody? t prop with
  | none => rfl
  | some body =>
    have hpart : r.Fits body := by
      obtain ⟨m, -, rfl⟩ := Option.map_eq_some_iff.mp hbody
      exact (hfits.take _).drop _
    simp only [Option.map_some]
    rw [occursIn_inner (steady_writesBrush hne hprop) hpart,
      occursIn_inner (steady_readsBrush hne hprop) hpart]

/-- **The findings on brush properties** follow the script: the attribute is seen on the same
declarations, the companion is found by the same name, and it converts in the same way. -/
theorem follows_brush : r.Follows Brush.reports := by
  refine follows_flatMap steady_brush (fun t m hfits hm => ?_)
  obtain ⟨hne, hprop⟩ := unbroken_brush hm
  have hpart := part_unbroken (r := r) hm .name (by decide)
  have hline := lineOf_start (r := r) hm
  obtain ⟨g, x, rfl, hstart, hstart', -⟩ := exists_start (r := r) hm
  have hignored := r.isIgnored_text g x
  rw [hstart, hstart'] at hline
  unfold Brush.reportsOn
  simp only
  -- the name is the same, and so is whether the attribute is seen in the lines above
  rw [hpart, hstart, hstart', hignored]
  split
  · rfl
  · rw [List.map_append, List.map_append]
    congr 1
    · unfold Brush.attributeFinding?
      simp only
      split
      · rfl
      · simp only [Option.toList_some, List.map_cons, List.map_nil, Function.comp_apply, shown, moved,
          Finding.about, Finding.mendable, Finding.error, hline]
    · unfold Brush.companionFinding?
      simp only
      rw [occursIn_text (steady_companion hne hprop) hfits, converts_text hne hprop hfits]
      split
      · simp only [Option.toList_some, List.map_cons, List.map_nil, Function.comp_apply, shown, moved,
          Finding.about, Finding.mendable, Finding.error, hline]
      · split
        · rfl
        · simp only [Option.toList_some, List.map_cons, List.map_nil, Function.comp_apply, shown,
            moved, Finding.about, Finding.error, hline]

/-! ## Series -/

/-- A number is written without line breaks. -/
theorem unbroken_toString (n : Nat) : (toString n).toList ≠ [] ∧ Unbroken (toString n).toList := by
  have hdigits : (toString n).toList = Nat.toDigits 10 n := Nat.toList_repr
  rw [hdigits]
  refine ⟨Nat.toDigits_ne_nil, ?_⟩
  constructor
  all_goals
    intro hmem
    have hdigit := Nat.isDigit_of_mem_toDigits (by decide) (by decide) hmem
    revert hdigit
    decide

/-- The number of a series stands in its pattern as a name stands in others. -/
theorem steady_barCount (index : Nat) : r.Steady (Series.barCount index) := by
  obtain ⟨hne, hindex⟩ := unbroken_toString index
  have h := r.steady_around (.edge ++ "CurrentBars" ++ blanks ++ "[" ++ blanks) (blanks ++ "]")
    hne hindex (by decide) (by decide) (fun c hc => noStart_terminator (by decide) _ hc)
  unfold Series.barCount
  simpa only [append_assoc, Pattern.text] using h

theorem steady_addition : r.Steady Series.addition :=
  steady_of_isSteady (by decide)

theorem steady_reference : r.Steady Series.reference :=
  steady_of_isSteady (by decide)

theorem robust_inProgress : r.Robust Series.inProgress :=
  robust_of_isRobust (by decide)

/-- Series that are added in the wrong phase. Phases follow the script. -/
theorem follows_placement : r.Follows (fun t => Series.placement t (Series.addition.findAll t)) := by
  refine follows_filterMap steady_addition (fun t m hfits hm => ?_)
  have hphase := at?_start hfits m
  have hline := lineOf_start (r := r) hm
  simp only [hphase]
  split
  · rfl
  · simp only [Option.map_some, Function.comp_apply, shown, moved, Finding.error, hline]

/-- The missing test for the series in progress, which is looked for in the first lines of the
method. -/
theorem progressGuard_text {t : Text} (hfits : r.Fits t) (count : Nat) :
    (Series.progressGuard (r.text t) count).map r.shown
      = (Series.progressGuard t count).map (r.shown ∘ r.moved) := by
  unfold Series.progressGuard
  rw [methodBody?_text hfits]
  cases hbody : methodBody? t "OnBarUpdate".toList with
  | none => rfl
  | some body =>
    obtain ⟨hle, hlength⟩ := methodBody?_bounds hbody
    have hline := lineNo_lineOf (r := r) (Nat.le_trans hle hlength)
    obtain ⟨g, x, rfl, hstart⟩ := exists_append (Nat.le_trans hle hlength)
    -- the guard is looked for in a window of lines, joined again: not in a slice of the text
    have hjoined := r.joined_drop_lines g x Series.guardWindow
    have hwindow : r.Fits (joinLines (((lines (g ++ x)).drop
        (lineOf (g ++ x) g.length - 1)).take Series.guardWindow)) :=
      fits_joinLines hfits (fun l hl c hc =>
        mem_of_mem_lines (List.mem_of_mem_drop (List.mem_of_mem_take hl)) hc)
    rw [← hstart, place_append] at hline
    simp only [Option.map_some, span, ← hstart, place_append]
    rw [occursIn_joined robust_inProgress hjoined hwindow]
    split
    · rfl
    · simp only [List.map_cons, List.map_nil, Function.comp_apply, shown, moved, Finding.error, hline]

/-- The missing tests for enough bars. They are remarks on the whole script, which do not move. -/
theorem barCounts_text {t : Text} (hfits : r.Fits t) (count : Nat) :
    (Series.barCounts (r.text t) count).map r.shown
      = (Series.barCounts t count).map (r.shown ∘ r.moved) := by
  unfold Series.barCounts
  simp only [occursIn_text (steady_barCount _) hfits, List.map_map]
  rfl

/-- A report on a reference, or the reason why its number was not read, follows the script. -/
theorem referenceFinding_text {t : Text} (count : Nat) {m : Match} (hm : Found Series.reference t m) :
    (Series.referenceFinding (r.text t) count (m.moved (r.place t))).map (Option.map r.shown)
      = (Series.referenceFinding t count m).map (Option.map (r.shown ∘ r.moved)) := by
  have hline := lineOf_start (r := r) hm
  unfold Series.referenceFinding
  simp only
  rw [part_unbroken hm .name (by decide), text_moved hm]
  cases Series.numberOf (m.part .name t) with
  | error fault => rfl
  | ok index =>
    simp only [map_ok]
    split
    · rfl
    · simp only [Option.map_some, Function.comp_apply, shown, moved, Finding.error, hline, clean_append,
        clean_quote]

/-- References out of range, up to the first number that is too long to be read. -/
theorem indexRange_text {t : Text} (hfits : r.Fits t) (count : Nat) :
    r.Alike (Series.indexRange (r.text t) count) (Series.indexRange t count) :=
  alike_filterMapM steady_reference hfits (fun _ hm => referenceFinding_text count (found_of_mem_findAll hm))

/-- **The findings on secondary series** follow the script, and so does giving up. -/
theorem findings_series_text {t : Text} (hfits : r.Fits t) :
    r.Alike (Series.findings (r.text t)) (Series.findings t) := by
  have hadditions := findAll_text (r := r) steady_addition hfits
  have hplacement := follows_placement t hfits
  -- without series nothing is said; otherwise their number, which decides the rest, is the same
  unfold Series.findings
  cases hadds : Series.addition.findAll t with
  | nil =>
    rw [hadditions, hadds]
    rfl
  | cons first others =>
    have hlength : (Series.addition.findAll (r.text t)).length = (first :: others).length := by
      rw [hadditions, hadds, List.length_map]
    simp only [hadds] at hplacement
    split
    · next hnone =>
      rw [hnone] at hlength
      cases hlength
    · simp only
      rw [hlength]
      refine (indexRange_text hfits _).map (fun fs' fs hfs => ?_)
      simp only [List.map_append, hplacement, progressGuard_text hfits, barCounts_text hfits, hfs]

end Respacing

end ChartLint
