import ChartLint.Proofs.Balance
import ChartLint.Proofs.Repair.Attribute
import ChartLint.Proofs.Respacing.Search
import ChartLint.Rule.Property

/-!
# Windows of a respaced script

What a rule sees around a line of a respaced script are the same lines, each with the end that the
respacing gives it, and above the first one perhaps some of the empty lines put in front
(`above_text`, `lineFront_text`, `lineBack_inner`). Joined to a text, such a window reads like the
window of the script (`occursIn_joined`): a pattern that is steady, sees nothing but what is next to
it and cannot end with a carriage return does not tell them apart.
-/

namespace ChartLint

namespace Respacing

open Text Pattern Source

variable {r : Respacing} {p : Pattern}

/-! ## Lines -/

/-- What the respacing puts behind the rest of a line, if the line is ended. -/
def ending (r : Respacing) (x : Text) : Text :=
  if '\n' ∈ x then r.lineEnd else []

theorem lineFront_inner (g : Text) : lineFront (r.inner g) = lineFront g := by
  by_cases hg : '\n' ∈ g
  · obtain ⟨a, b, rfl, hb⟩ := exists_last_feed hg
    rw [inner_append, inner_cons_feed, ← List.append_assoc, lineFront_append_feed,
      lineFront_append_feed, inner_of_not_mem hb]
  · rw [inner_of_not_mem hg]

theorem not_mem_append_lineEnd {l : Text} (h : '\n' ∉ l) : '\n' ∉ l ++ r.lineEnd := by
  intro hmem
  rcases List.mem_append.mp hmem with hmem | hmem
  · exact h hmem
  · exact not_mem_lineEnd hmem

/-- The end of a line is at most a carriage return. -/
theorem eq_nil_or_return {e : Text} (he : e = [] ∨ e = r.lineEnd) : e = [] ∨ e = ['\r'] := by
  rcases he with rfl | rfl
  · exact .inl rfl
  · cases hreturns : r.returns with
    | true => exact .inr (lineEnd_of_returns hreturns)
    | false => exact .inl (lineEnd_of_not_returns hreturns)

theorem isBlank_of_mem_end {e : Text} (he : e = [] ∨ e = r.lineEnd) {d : Char} (hd : d ∈ e) :
    isBlank d = true := by
  rcases eq_nil_or_return he with rfl | rfl
  · cases hd
  · obtain rfl := List.mem_singleton.mp hd
    decide

/-- The complete lines of a text that is spelled anew. -/
theorem above_inner (g : Text) : above (r.inner g) = (above g).map (· ++ r.lineEnd) := by
  induction hn : g.length using Nat.strongRecOn generalizing g with
  | _ n ih =>
    by_cases hg : '\n' ∈ g
    · obtain ⟨a, b, rfl, hb⟩ := exists_last_feed hg
      have hlength : a.length < n := by
        rw [← hn, List.length_append, List.length_cons]
        omega
      rw [inner_append, inner_cons_feed, inner_of_not_mem hb, ← List.append_assoc, above_append_feed,
        above_append_feed, above_of_not_mem hb, List.nil_append, List.nil_append, List.map_cons,
        lineFront_append _ not_mem_lineEnd, above_append _ not_mem_lineEnd, lineFront_inner,
        ih _ hlength a rfl]
    · rw [inner_of_not_mem hg, above_of_not_mem hg]
      rfl

theorem above_head : above r.head = List.replicate r.front r.lineEnd := by
  have habove : ∀ n, above (List.replicate n '\n') = List.replicate n [] := by
    intro n
    induction n with
    | zero => rfl
    | succ n ih =>
      have hsplit : List.replicate (n + 1) '\n' = [] ++ '\n' :: List.replicate n '\n' := rfl
      rw [hsplit, above_append_feed, ih, List.replicate_succ']
      rfl
  rw [head, above_inner, habove, List.map_replicate]
  rfl

theorem lineFront_head : lineFront r.head = [] := by
  rw [head, lineFront_inner]
  cases r.front with
  | zero => rfl
  | succ n =>
    have hsplit : List.replicate (n + 1) '\n' = List.replicate n '\n' ++ '\n' :: [] :=
      List.replicate_succ'
    rw [hsplit, lineFront_append_feed]
    rfl

theorem endsLine_head : EndsLine r.head := by
  intro c hc
  obtain ⟨l, hl, hends⟩ := eq_append_lineFront r.head
  rw [lineFront_head, List.append_nil] at hl
  rw [hl] at hc
  exact hends c hc

/-- **The lines above a place**, nearest first. -/
theorem above_text (g : Text) :
    above (r.text g) = (above g).map (· ++ r.lineEnd) ++ List.replicate r.front r.lineEnd := by
  rw [text, Repair.above_of_endsLine endsLine_head, above_inner, above_head]

/-- **The front of the line of a place.** -/
theorem lineFront_text (g : Text) : lineFront (r.text g) = lineFront g := by
  rw [text, Repair.lineFront_of_endsLine endsLine_head, lineFront_inner]

/-- **The rest of the line of a place.** -/
theorem lineBack_inner (x : Text) : lineBack (r.inner x) = lineBack x ++ r.ending x := by
  unfold ending
  split
  · next hx =>
    obtain ⟨y, z, rfl, hy⟩ := List.eq_append_cons_of_mem hx
    rw [inner_append, inner_cons_feed, inner_of_not_mem hy, ← List.append_assoc, lineBack_append_feed,
      lineBack_append_feed, lineBack_of_not_mem (not_mem_append_lineEnd hy), lineBack_of_not_mem hy]
  · next hx =>
    rw [inner_of_not_mem hx, lineBack_of_not_mem hx, List.append_nil]

theorem not_mem_above {g l : Text} (h : l ∈ above g) : '\n' ∉ l :=
  not_mem_of_mem_lines (List.dropLast_subset _ (List.mem_reverse.mp h))

/-! ## The lines around an offset -/

/-- **The context of a line** is made of the lines above its offset and of its own. -/
theorem contextOf_lineOf (g x : Text) (depth : Nat) :
    contextOf (lines (g ++ x)) (lineOf (g ++ x) g.length) depth
      = joinLines (((above g).take depth).reverse ++ [ownLine g x]) := by
  have hline : lineOf (g ++ x) g.length = (above g).reverse.length + 1 := by
    rw [lineOf_append, List.length_reverse, length_above]
  have htake : (lines (g ++ x)).take (lineOf (g ++ x) g.length) = (above g).reverse ++ [ownLine g x] := by
    rw [hline, lines_append, List.take_append, List.take_of_length_le (Nat.le_succ _)]
    simp [ownLine]
  have hdrop : (above g).reverse.length - depth ≤ (above g).reverse.length := Nat.sub_le _ _
  rw [contextOf, htake, hline, Nat.add_sub_cancel, List.drop_append_of_le_length hdrop,
    List.length_reverse, ← List.reverse_take]

/-- The lines from that of an offset on are those of the rest, the first one with its front. -/
theorem drop_lines_lineOf (g x : Text) :
    (lines (g ++ x)).drop (lineOf (g ++ x) g.length - 1) = lines (lineFront g ++ x) := by
  rw [lineOf_sub_one, lines_append, List.drop_left, lines_append,
    above_of_not_mem (not_mem_lineFront g), lineFront_of_not_mem (not_mem_lineFront g)]
  rfl

/-! ## Joined lines -/

theorem mem_joinLines {ls : List Text} {c : Char} (h : c ∈ joinLines ls) :
    c = '\n' ∨ ∃ l ∈ ls, c ∈ l := by
  induction ls with
  | nil => cases h
  | cons l ls ih =>
    cases ls with
    | nil =>
      have hone : joinLines [l] = l := by simp [joinLines, List.intercalate]
      rw [hone] at h
      exact .inr ⟨l, List.mem_cons_self, h⟩
    | cons k ks =>
      rw [joinLines_cons (by simp)] at h
      rcases List.mem_append.mp h with h | h
      · exact .inr ⟨l, List.mem_cons_self, h⟩
      · rcases List.mem_cons.mp h with h | h
        · exact .inl h
        · refine (ih h).imp_right ?_
          rintro ⟨j, hj, hc⟩
          exact ⟨j, List.mem_cons_of_mem l hj, hc⟩

/-- Lines made of characters of the script fit like the script. -/
theorem fits_joinLines {t : Text} (hfits : r.Fits t) {ls : List Text}
    (h : ∀ l ∈ ls, ∀ c ∈ l, c ∈ t) : r.Fits (joinLines ls) := by
  intro hr hmem
  rcases mem_joinLines hmem with hc | ⟨l, hl, hc⟩
  · cases hc
  · exact hfits hr (h l hl '\r' hc)

theorem fits_contextOf {t : Text} (hfits : r.Fits t) (line depth : Nat) :
    r.Fits (contextOf (lines t) line depth) := by
  refine fits_joinLines hfits (fun l hl c hc => ?_)
  exact mem_of_mem_lines (List.mem_of_mem_take (List.mem_of_mem_drop hl)) hc

/-- Lines with ends are joined to the text of the lines, spelled anew. -/
theorem joinLines_map {ls : List Text} (hls : ∀ l ∈ ls, '\n' ∉ l) {l : Text} (hl : '\n' ∉ l) :
    joinLines (ls.map (· ++ r.lineEnd) ++ [l]) = r.inner (joinLines (ls ++ [l])) := by
  induction ls with
  | nil =>
    have hone : joinLines [l] = l := by simp [joinLines, List.intercalate]
    rw [List.map_nil, List.nil_append, hone, inner_of_not_mem hl]
  | cons k ls ih =>
    rw [List.map_cons, List.cons_append, joinLines_cons (by simp), List.cons_append,
      joinLines_cons (by simp), ih (fun j hj => hls j (List.mem_cons_of_mem k hj)), inner_append,
      inner_cons_feed, inner_of_not_mem (hls k List.mem_cons_self), List.append_assoc]

/-- Empty lines in front. -/
theorem joinLines_replicate (n : Nat) {ls : List Text} (h : ls ≠ []) :
    joinLines (List.replicate n [] ++ ls) = List.replicate n '\n' ++ joinLines ls := by
  induction n with
  | zero => rfl
  | succ n ih =>
    rw [List.replicate_succ, List.cons_append, joinLines_cons (by simp [h]), ih]
    rfl

/-- **The window reads like the other one:** it is its text, respaced, with a line end behind it or
not. -/
def Joined (r : Respacing) (t t' : Text) : Prop :=
  ∃ n e, t' = (Respacing.mk n r.returns).text t ++ e ∧ (e = [] ∨ e = r.lineEnd)

/-- Lines above a line, with their ends and with empty lines above them. -/
theorem joined_lines (ls : List Text) (hls : ∀ l ∈ ls, '\n' ∉ l) {l e : Text} (hl : '\n' ∉ l)
    (he : e = [] ∨ e = r.lineEnd) (n : Nat) :
    Joined r (joinLines (ls.reverse ++ [l]))
      (joinLines ((ls.map (· ++ r.lineEnd) ++ List.replicate n r.lineEnd).reverse ++ [l ++ e])) := by
  refine ⟨n, e, ?_, he⟩
  have hrule : (ls.map (· ++ r.lineEnd) ++ List.replicate n r.lineEnd).reverse
      = (List.replicate n [] ++ ls.reverse).map (· ++ r.lineEnd) := by
    rw [List.reverse_append, List.reverse_replicate, List.map_append, List.map_replicate,
      List.map_reverse]
    rfl
  have hlast : ∀ ks : List Text, joinLines (ks ++ [l ++ e]) = joinLines (ks ++ [l]) ++ e := by
    intro ks
    induction ks with
    | nil => simp [joinLines, List.intercalate]
    | cons k ks ih =>
      rw [List.cons_append, joinLines_cons (by simp), List.cons_append, joinLines_cons (by simp), ih]
      simp
  have hfeed : ∀ k ∈ List.replicate n [] ++ ls.reverse, '\n' ∉ k := by
    intro k hk
    rcases List.mem_append.mp hk with hk | hk
    · rw [List.eq_of_mem_replicate hk]
      exact List.not_mem_nil
    · exact hls k (List.mem_reverse.mp hk)
  rw [hlast, hrule, joinLines_map hfeed hl, List.append_assoc, joinLines_replicate n (by simp),
    text, inner_append, head]
  rfl

/-! ## Patterns in windows -/

/-- **The pattern is robust:** it is steady, it sees only what is next to it, and a carriage return
cannot end it. -/
structure Robust (r : Respacing) (p : Pattern) : Prop extends r.Steady p where
  isLocal : p.isLocal = true
  notEmpty : p.mayBeEmpty = false
  noEnd : p.mayEnd '\r' = false

/-- A computed reason for a pattern to be robust. -/
def isRobust (p : Pattern) : Bool :=
  isSteady p && p.isLocal && !p.mayBeEmpty && !p.mayEnd '\r'

theorem robust_of_isRobust (h : isRobust p = true) : r.Robust p := by
  simp only [isRobust, Bool.and_eq_true, Bool.not_eq_true'] at h
  obtain ⟨⟨⟨hsteady, hlocal⟩, hempty⟩, hend⟩ := h
  exact ⟨steady_of_isSteady hsteady, hlocal, hempty, hend⟩

/-- A carriage return at the end of a text is not seen. -/
theorem startsAt_append_return (hlocal : p.isLocal = true) (hend : p.mayEnd '\r' = false)
    (x : Option Char) (t : Text) :
    p.StartsAt x (t ++ ['\r']) ↔ p.StartsAt x t := by
  have hhead : ∀ u : Text, SameHead (u ++ ['\r']) u := by
    intro u
    cases u with
    | nil => rfl
    | cons c u => rfl
  constructor
  · rintro ⟨w, u, hsplit, hacc⟩
    rcases List.eq_nil_or_concat u with rfl | ⟨front, c, rfl⟩
    · -- the match would end with the carriage return
      rw [List.append_nil] at hsplit
      rw [← hsplit] at hacc
      rw [mayEnd_of_accepts hacc] at hend
      cases hend
    · rw [List.concat_eq_append, ← List.append_assoc] at hsplit
      obtain ⟨hfront, hlast⟩ := List.append_inj' hsplit rfl
      obtain rfl : '\r' = c := by simpa using hlast
      exact ⟨w, front, hfront, accepts_congr_right hlocal (hhead front) (by simpa using hacc)⟩
  · rintro ⟨w, u, rfl, hacc⟩
    refine ⟨w, u ++ ['\r'], by rw [List.append_assoc], accepts_congr_right hlocal ?_ hacc⟩
    exact (hhead u).symm

/-- A pattern that never ends in a carriage return does not see one at the end of a line. -/
theorem occurs_append_return (hlocal : p.isLocal = true) (hend : p.mayEnd '\r' = false)
    (hne : p.mayBeEmpty = false) (x : Option Char) (t : Text) :
    p.Occurs x (t ++ ['\r']) ↔ p.Occurs x t := by
  induction t generalizing x with
  | nil =>
    have hstart := startsAt_append_return hlocal hend x []
    rw [List.nil_append] at hstart ⊢
    rw [occurs_cons, occurs_nil, occurs_nil, hstart]
    refine or_iff_left ?_
    rintro ⟨w, u, hsplit, hacc⟩
    obtain ⟨rfl, rfl⟩ := List.append_eq_nil_iff.mp hsplit.symm
    exact consumes_of_mayBeEmpty hne _ _ hacc
  | cons c t ih =>
    rw [List.cons_append, occurs_cons, occurs_cons, ih, ← List.cons_append,
      startsAt_append_return hlocal hend x (c :: t)]

/-- **A robust pattern does not see what ends a line.** -/
theorem occursIn_append_lineEnd (hp : r.Robust p) {t e : Text} (he : e = [] ∨ e = r.lineEnd) :
    p.occursIn (t ++ e) = p.occursIn t := by
  have hreturn : p.occursIn (t ++ ['\r']) = p.occursIn t := by
    rw [Bool.eq_iff_iff, occursIn_iff, occursIn_iff]
    exact occurs_append_return hp.isLocal hp.noEnd hp.notEmpty none t
  rcases eq_nil_or_return he with rfl | rfl
  · rw [List.append_nil]
  · exact hreturn

/-- **A robust pattern** does not tell windows apart. -/
theorem occursIn_joined (hp : r.Robust p) {t t' : Text} (h : Joined r t t') (hfits : r.Fits t) :
    p.occursIn t' = p.occursIn t := by
  obtain ⟨n, e, rfl, he⟩ := h
  rw [occursIn_append_lineEnd hp he]
  exact occursIn_text (r := ⟨n, r.returns⟩) ⟨hp.even, hp.noFeed, hp.noReturn⟩ hfits

/-! ## Ends of members and attributes -/

/-- A line ends a member if nothing but blanks follows a semicolon or a closing brace. -/
theorem occurs_memberEnd {l : Text} (h : '\n' ∉ l) :
    memberEnd.Occurs none l ↔
      ∃ a c s, l = a ++ c :: s ∧ c ∈ Repair.memberEnds ∧ ∀ d ∈ s, isBlank d = true := by
  constructor
  · rintro ⟨a, b, rfl, w, u, rfl, hacc⟩
    obtain ⟨w₁, _, rfl, hfirst, rfl, hend⟩ := accepts_append.mp hacc
    obtain ⟨_, s, rfl, ⟨c, rfl, hc⟩, hs⟩ := accepts_append.mp hfirst
    obtain rfl : u = [] := by
      rcases (by simpa using hend : u = [] ∨ u = ['\n']) with rfl | rfl
      · rfl
      · exact absurd (by simp) h
    exact ⟨a, c, s, by simp, by simpa [oneOf, Repair.memberEnds] using hc, hs⟩
  · rintro ⟨a, c, s, rfl, hc, hs⟩
    refine ⟨a, c :: s, rfl, c :: s, [], by simp, ?_⟩
    refine accepts_append.mpr ⟨c :: s, [], by simp, ?_, rfl, .inl rfl⟩
    exact accepts_append.mpr ⟨[c], s, rfl, ⟨c, rfl, by simpa [oneOf, Repair.memberEnds] using hc⟩, hs⟩

/-- Nor does the pattern for what ends a member. -/
theorem occursIn_memberEnd {l e : Text} (h : '\n' ∉ l) (he : e = [] ∨ e = r.lineEnd) :
    memberEnd.occursIn (l ++ e) = memberEnd.occursIn l := by
  have hblank : ∀ d ∈ e, isBlank d = true := fun _ => isBlank_of_mem_end he
  have hfeed : '\n' ∉ l ++ e := by
    rcases eq_nil_or_return he with rfl | rfl <;> simpa using h
  rw [Bool.eq_iff_iff, occursIn_iff, occursIn_iff, occurs_memberEnd hfeed, occurs_memberEnd h]
  constructor
  · rintro ⟨a, c, s, hsplit, hc, hs⟩
    -- the end of a member is no blank, so it does not lie in the line break
    have hnotblank : c ∉ e := by
      intro hmem
      have hcb := hblank c hmem
      rcases (by simpa [Repair.memberEnds] using hc : c = ';' ∨ c = '}') with rfl | rfl <;> cases hcb
    rcases List.append_eq_append_iff.mp hsplit with ⟨a', rfl, hrest⟩ | ⟨l', rfl, hrest⟩
    · exact absurd (by rw [hrest]; simp) hnotblank
    · cases l' with
      | nil => exact absurd (by rw [← List.nil_append e, ← hrest]; simp) hnotblank
      | cons d l' =>
        obtain ⟨rfl, rfl⟩ := List.cons.inj hrest
        exact ⟨a, c, l', rfl, hc, fun d hd => hs d (List.mem_append_left e hd)⟩
  · rintro ⟨a, c, s, rfl, hc, hs⟩
    refine ⟨a, c, s ++ e, by simp, hc, fun d hd => ?_⟩
    exact (List.mem_append.mp hd).elim (hs d) (hblank d)

/-- A line's end does not change how the line starts. -/
theorem isPrefixOf_trim_append {w l e : Text} (hw : w.any isBlank = false)
    (he : e = [] ∨ e = r.lineEnd) : w.isPrefixOf (trim (l ++ e)) = w.isPrefixOf (trim l) := by
  have hblank : ∀ d ∈ e, isBlank d = true := fun _ => isBlank_of_mem_end he
  have htrim : ∀ t, w.isPrefixOf (trim t) = w.isPrefixOf (t.dropWhile isBlank) :=
    fun t => Rule.Balance.isPrefixOf_trimEndBy hw
  rw [htrim, htrim, List.dropWhile_append]
  split
  · next hnil =>
    rw [List.isEmpty_iff.mp hnil, List.dropWhile_eq_nil_iff.mpr hblank]
  · rw [Bool.eq_iff_iff, List.isPrefixOf_iff_prefix, List.isPrefixOf_iff_prefix]
    constructor
    · rintro ⟨u, hu⟩
      rcases List.append_eq_append_iff.mp hu with ⟨a', ha', -⟩ | ⟨w', hw', hrest⟩
      · exact ⟨a', ha'.symm⟩
      · cases w' with
        | nil => exact ⟨[], by rw [hw']; simp⟩
        | cons d w' =>
          have hdw : d ∈ w := by rw [hw']; simp
          exact absurd (hblank d (by rw [hrest]; simp)) (List.any_eq_false.mp hw d hdw)
    · exact fun h => h.trans (List.prefix_append _ _)

/-- Nor do the markers of regions. -/
theorem regionMarker?_append {l e : Text} (he : e = [] ∨ e = r.lineEnd) :
    Rule.Balance.regionMarker? (l ++ e) = Rule.Balance.regionMarker? l := by
  simp only [Rule.Balance.regionMarker?,
    isPrefixOf_trim_append (w := "#endregion".toList) (by decide) he,
    isPrefixOf_trim_append (w := "#region".toList) (by decide) he]

/-- Nor does what ends a block of attributes. -/
theorem endsBlock_append {l e : Text} (h : '\n' ∉ l) (he : e = [] ∨ e = r.lineEnd) :
    Rule.Property.endsBlock (l ++ e) = Rule.Property.endsBlock l := by
  rw [Rule.Property.endsBlock, Rule.Property.endsBlock, occursIn_memberEnd h he,
    isPrefixOf_trim_append (by decide) he]

/-- Nor does the attribute of brush properties. -/
theorem occursIn_xmlIgnore {l e : Text} (he : e = [] ∨ e = r.lineEnd) :
    Rule.Brush.xmlIgnore.occursIn (l ++ e) = Rule.Brush.xmlIgnore.occursIn l := by
  obtain ⟨hname, hempty, hbracket, hempty', -⟩ := Repair.attributeName_local
  have hend : Repair.attributeName.mayEnd '\r' = false ∧ Repair.bracketed.mayEnd '\r' = false := by
    decide
  have hreturn : Rule.Brush.xmlIgnore.occursIn (l ++ ['\r']) = Rule.Brush.xmlIgnore.occursIn l := by
    rw [Bool.eq_iff_iff, occursIn_iff, occursIn_iff, Repair.occurs_xmlIgnore, Repair.occurs_xmlIgnore,
      startsAt_append_return hname hend.1, occurs_append_return hbracket hend.2 hempty']
  rcases eq_nil_or_return he with rfl | rfl
  · rw [List.append_nil]
  · exact hreturn

/-- **The attribute above a line** is seen or not, however lines end and with empty lines put above.
-/
theorem ignoredAbove_map {ls : List Text} (hls : ∀ l ∈ ls, '\n' ∉ l) (n : Nat) :
    Rule.Brush.ignoredAbove (ls.map (· ++ r.lineEnd) ++ List.replicate n r.lineEnd)
      = Rule.Brush.ignoredAbove ls := by
  induction ls with
  | nil =>
    induction n with
    | zero => rfl
    | succ n ih =>
      have hmark := occursIn_xmlIgnore (r := r) (l := []) (.inr rfl)
      rw [List.nil_append, show Rule.Brush.xmlIgnore.occursIn [] = false by decide] at hmark
      rw [List.map_nil, List.nil_append] at ih ⊢
      rw [List.replicate_succ]
      simp only [Rule.Brush.ignoredAbove, hmark, ih, Bool.and_false, Bool.or_false]
  | cons l ls ih =>
    rw [List.map_cons, List.cons_append, Rule.Brush.ignoredAbove, Rule.Brush.ignoredAbove,
      occursIn_xmlIgnore (.inr rfl), occursIn_memberEnd (hls l List.mem_cons_self) (.inr rfl),
      ih (fun k hk => hls k (List.mem_cons_of_mem l hk))]

/-- The lines above a place within a depth. -/
theorem take_above_text (g : Text) (depth : Nat) :
    ∃ n, (above (r.text g)).take depth
      = ((above g).take depth).map (· ++ r.lineEnd) ++ List.replicate n r.lineEnd := by
  refine ⟨min (depth - (above g).length) r.front, ?_⟩
  rw [above_text, List.take_append, List.length_map, List.map_take, List.take_replicate]

theorem ending_eq (x : Text) : r.ending x = [] ∨ r.ending x = r.lineEnd := by
  unfold ending
  split
  · exact .inr rfl
  · exact .inl rfl

/-- The line of an offset is the same, up to what ends it. -/
theorem ownLine_text (g x : Text) : ownLine (r.text g) (r.inner x) = ownLine g x ++ r.ending x := by
  rw [ownLine, lineFront_text, lineBack_inner, ← List.append_assoc]
  rfl

/-- **The attribute is seen** on the same declarations. -/
theorem isIgnored_text (g x : Text) :
    Rule.Brush.isIgnored? (lines (r.text (g ++ x))) (lineOf (r.text (g ++ x)) (r.text g).length)
      = Rule.Brush.isIgnored? (lines (g ++ x)) (lineOf (g ++ x) g.length) := by
  obtain ⟨n, habove⟩ := r.take_above_text g Rule.Brush.lookback
  have hlines : ∀ l ∈ (above g).take Rule.Brush.lookback, '\n' ∉ l :=
    fun l hl => not_mem_above (List.mem_of_mem_take hl)
  rw [text_append, Rule.Brush.isIgnored?_append, Rule.Brush.isIgnored?_append, ownLine_text,
    occursIn_xmlIgnore (ending_eq x), habove, ignoredAbove_map hlines]

/-- **The context of a line** reads the same. -/
theorem joined_contextOf (g x : Text) (depth : Nat) :
    Joined r (contextOf (lines (g ++ x)) (lineOf (g ++ x) g.length) depth)
      (contextOf (lines (r.text (g ++ x))) (lineOf (r.text (g ++ x)) (r.text g).length) depth) := by
  obtain ⟨n, habove⟩ := r.take_above_text g depth
  rw [text_append, contextOf_lineOf, contextOf_lineOf, ownLine_text, habove]
  exact joined_lines _ (fun l hl => not_mem_above (List.mem_of_mem_take hl)) (not_mem_ownLine g x)
    (ending_eq x) n

/-! ## Attribute blocks -/

theorem upTo_subset (part t : Text) : upTo part t ⊆ t := by
  induction t with
  | nil => exact List.Subset.refl _
  | cons c t ih =>
    rw [upTo]
    split
    · exact List.nil_subset _
    · exact List.cons_subset_cons c ih

/-- The end of a text that holds the part already does not change what stands in front of it. -/
theorem upTo_append {part t : Text} (h : part <:+: t) (e : Text) :
    upTo part (t ++ e) = upTo part t := by
  induction t with
  | nil =>
    obtain rfl : part = [] := List.infix_nil.mp h
    cases e with
    | nil => rfl
    | cons c e => simp [upTo]
  | cons c t ih =>
    rw [List.cons_append, upTo, upTo]
    by_cases hpre : part <+: c :: t
    · have hpre' : part <+: c :: (t ++ e) := hpre.trans (List.prefix_append (c :: t) e)
      rw [if_pos (List.isPrefixOf_iff_prefix.mpr hpre'), if_pos (List.isPrefixOf_iff_prefix.mpr hpre)]
    · have hinfix : part <:+: t := (List.infix_cons_iff.mp h).resolve_left hpre
      have hpre' : ¬ part <+: c :: (t ++ e) := by
        intro hlong
        refine hpre (List.prefix_of_prefix_length_le hlong (List.prefix_append (c :: t) e) ?_)
        exact Nat.le_succ_of_le hinfix.length_le
      rw [if_neg (fun hp => hpre' (List.isPrefixOf_iff_prefix.mp hp)),
        if_neg (fun hp => hpre (List.isPrefixOf_iff_prefix.mp hp)), ih hinfix]

/-- A run of lines with a property that ends of lines do not touch runs as far as before, and into the
lines put in front if it reaches the first one. -/
theorem takeWhile_map_lineEnd {q : Text → Bool} {ls : List Text}
    (hq : ∀ l ∈ ls, q (l ++ r.lineEnd) = q l) (hend : q r.lineEnd = true) (n : Nat) :
    ∃ k, (ls.map (· ++ r.lineEnd) ++ List.replicate n r.lineEnd).takeWhile q
      = (ls.takeWhile q).map (· ++ r.lineEnd) ++ List.replicate k r.lineEnd := by
  induction ls with
  | nil =>
    refine ⟨n, ?_⟩
    rw [List.map_nil, List.nil_append, List.takeWhile_eq_self_iff.mpr]
    · rfl
    · intro l hl
      rw [List.eq_of_mem_replicate hl]
      exact hend
  | cons l ls ih =>
    obtain ⟨k, hk⟩ := ih (fun j hj => hq j (List.mem_cons_of_mem l hj))
    rw [List.map_cons, List.cons_append, List.takeWhile_cons, List.takeWhile_cons,
      hq l List.mem_cons_self]
    split
    · exact ⟨k, by rw [hk]; rfl⟩
    · exact ⟨0, rfl⟩

/-- **The attribute block** above a declaration reads the same. -/
theorem joined_attributesOf {g x : Text} (hpublic : "public".toList <+: x) :
    Joined r (Rule.Property.attributesOf g x) (Rule.Property.attributesOf (r.text g) (r.inner x)) := by
  have hinfix : "public".toList <:+: ownLine g x := by
    obtain ⟨x', rfl⟩ := hpublic
    rw [ownLine, lineBack_append (by decide)]
    exact ⟨lineFront g, lineBack x', by simp⟩
  have hfeed : '\n' ∉ upTo "public".toList (ownLine g x) :=
    fun hmem => not_mem_ownLine g x (upTo_subset _ _ hmem)
  obtain ⟨n, habove⟩ := r.take_above_text g Rule.Property.lookback
  have hlines : ∀ l ∈ (above g).take Rule.Property.lookback, '\n' ∉ l :=
    fun l hl => not_mem_above (List.mem_of_mem_take hl)
  have hblock : Rule.Property.endsBlock r.lineEnd = false := by
    have h := endsBlock_append (r := r) (l := []) (by simp) (.inr rfl)
    rw [List.nil_append] at h
    rw [h]
    decide
  obtain ⟨k, hk⟩ := takeWhile_map_lineEnd (r := r) (q := fun l => !Rule.Property.endsBlock l)
    (fun l hl => by rw [endsBlock_append (hlines l hl) (.inr rfl)]) (by rw [hblock]; rfl) n
  unfold Rule.Property.attributesOf
  rw [ownLine_text, upTo_append hinfix, habove, hk]
  have hjoined := r.joined_lines
    (((above g).take Rule.Property.lookback).takeWhile (fun l => !Rule.Property.endsBlock l))
    (fun l hl => hlines l ((List.takeWhile_sublist _).subset hl)) hfeed (.inl rfl) k
  rwa [List.append_nil] at hjoined

/-! ## The first lines of a text -/

/-- The lines of a respelled text are its lines, all but the last with the end of a line. -/
theorem lines_inner (y : Text) :
    lines (r.inner y) = (above y).reverse.map (· ++ r.lineEnd) ++ [lineFront y] := by
  rw [lines_eq_above, above_inner, lineFront_inner, List.map_reverse]

theorem joined_refl_nil : Joined r [] [] :=
  ⟨0, [], rfl, .inl rfl⟩

/-- **The first lines** of a text that is spelled anew. -/
theorem joined_take_lines (y : Text) (depth : Nat) :
    Joined r (joinLines ((lines y).take depth)) (joinLines ((lines (r.inner y)).take depth)) := by
  have hlines : ∀ l ∈ (above y).reverse, '\n' ∉ l := fun l hl => not_mem_above (List.mem_reverse.mp hl)
  rw [lines_inner, lines_eq_above y]
  generalize hA : (above y).reverse = A at hlines
  by_cases hdepth : A.length < depth
  · rw [List.take_of_length_le (by simp; omega), List.take_of_length_le (by simp; omega),
      joinLines_map hlines (not_mem_lineFront y)]
    exact ⟨0, [], by rw [List.append_nil]; rfl, .inl rfl⟩
  · rw [List.take_append_of_le_length (by omega),
      List.take_append_of_le_length (by rw [List.length_map]; omega), ← List.map_take]
    rcases List.eq_nil_or_concat (A.take depth) with hnil | ⟨B, b, hB⟩
    · rw [hnil]
      exact joined_refl_nil
    · have hmem : ∀ l ∈ B ++ [b], '\n' ∉ l := by
        intro l hl
        rw [← List.concat_eq_append, ← hB] at hl
        exact hlines l (List.mem_of_mem_take hl)
      have hjoined := joined_lines (r := r) B.reverse (l := b) (e := r.lineEnd)
        (fun l hl => hmem l (by simpa using .inl (List.mem_reverse.mp hl))) (hmem b (by simp))
        (.inr rfl) 0
      rw [hB, List.concat_eq_append, List.map_append]
      simpa using hjoined

/-- **A window of lines** in both scripts, joined again. -/
theorem joined_drop_lines (g x : Text) (depth : Nat) :
    Joined r (joinLines (((lines (g ++ x)).drop (lineOf (g ++ x) g.length - 1)).take depth))
      (joinLines (((lines (r.text (g ++ x))).drop
        (lineOf (r.text (g ++ x)) (r.text g).length - 1)).take depth)) := by
  have hinner : lineFront g ++ r.inner x = r.inner (lineFront g ++ x) := by
    rw [inner_append, inner_of_not_mem (not_mem_lineFront g)]
  rw [text_append, drop_lines_lineOf, drop_lines_lineOf, lineFront_text, hinner]
  exact joined_take_lines _ depth

/-! ## Line by line -/

/-- A respaced text has as many more lines as were put in front. -/
theorem length_lines_text (t : Text) : (lines (r.text t)).length = (lines t).length + r.front := by
  rw [length_lines, length_lines, text, List.count_append, count_head, count_inner]
  omega

/-- The empty lines in front. -/
theorem getElem?_lines_front (t : Text) {n : Nat} (hn : n < r.front) :
    (lines (r.text t))[n]? = some r.lineEnd := by
  have hlength : n < (above (r.text [])).reverse.length := by
    rw [List.length_reverse, length_above, text, inner_nil, List.append_nil, count_head]
    exact hn
  have hsplit : r.text t = r.text [] ++ r.inner t := text_append [] t
  rw [hsplit, lines_append, List.getElem?_append_left hlength, above_text]
  simp [above_of_not_mem, hn]

end Respacing

end ChartLint
