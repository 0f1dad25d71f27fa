import ChartLint.Repair
import ChartLint.Proofs.Pattern.Spelling
import ChartLint.Proofs.Rule.Readings

/-!
# The attribute of a property

Whether a property has its attribute is a question about the line that it stands on and the lines
above it. Here the text in front of the property and the text from it on are two texts, `g` and `x`,
and `Marked g x` is the answer (`marked_iff`).

The attribute stays in sight through everything that the repair does: when a line with the attribute
is put between the lines (`Marked.insert_line`), and when the text is cut behind a semicolon or a
closing brace and goes on with something else there (`Marked.extend_left`, `Marked.extend_right`).
Behind that is that no attribute crosses a semicolon or a closing brace (`occurs_xmlIgnore_cut`).
-/

namespace ChartLint

namespace Repair

open Pattern Text Source Rule

/-! ## The attribute in a line -/

/-- The attribute's name, with the path and the blanks in front of it. -/
def attributeName : Pattern :=
  blanks ++ (.star (word ++ ".") ++ ("XmlIgnore" ++ .edge))

/-- The attribute behind an opening bracket or a comma. -/
def bracketed : Pattern :=
  .one (oneOf ['[', ',']) ++ attributeName

/-- The attribute stands in brackets, or without them at the start of the text. -/
theorem accepts_xmlIgnore {x : Option Char} {w r : Text} :
    Brush.xmlIgnore.Accepts x w r ↔
      (x = none ∧ attributeName.Accepts x w r) ∨ bracketed.Accepts x w r := by
  simp only [Brush.xmlIgnore, bracketed, attributeName, accepts_append_assoc]
  rw [accepts_append]
  simp only [Accepts]
  constructor
  · rintro ⟨w₁, w₂, rfl, h₁ | h₁, h₂⟩
    · obtain ⟨_, s, rfl, ⟨rfl, rfl⟩, hs⟩ := accepts_append.mp h₁
      exact .inl ⟨rfl, accepts_append.mpr ⟨s, w₂, rfl, hs, h₂⟩⟩
    · obtain ⟨c, s, rfl, hc, hs⟩ := accepts_append.mp h₁
      refine .inr (accepts_append.mpr ⟨c, s ++ w₂, by simp, hc, ?_⟩)
      refine accepts_append.mpr ⟨s, w₂, rfl, hs, ?_⟩
      simpa using h₂
  · rintro (⟨rfl, h⟩ | h)
    · obtain ⟨s, w₂, rfl, hs, h₂⟩ := accepts_append.mp h
      exact ⟨s, w₂, rfl, .inl (accepts_append.mpr ⟨[], s, rfl, ⟨rfl, rfl⟩, hs⟩), h₂⟩
    · obtain ⟨c, w', rfl, hc, h'⟩ := accepts_append.mp h
      obtain ⟨s, w₂, rfl, hs, h₂⟩ := accepts_append.mp h'
      refine ⟨c ++ s, w₂, by simp, .inr (accepts_append.mpr ⟨c, s, rfl, hc, hs⟩), ?_⟩
      simpa using h₂

/-- A line has the attribute at its start, or behind a bracket or a comma. -/
theorem occurs_xmlIgnore {t : Text} :
    Brush.xmlIgnore.Occurs none t ↔ attributeName.StartsAt none t ∨ bracketed.Occurs none t := by
  constructor
  · rintro ⟨a, b, rfl, w, r, rfl, hacc⟩
    rcases accepts_xmlIgnore.mp hacc with ⟨hnone, hname⟩ | hbracket
    · rw [lastOr_none, List.getLast?_eq_none_iff] at hnone
      subst hnone
      exact .inl ⟨w, r, rfl, hname⟩
    · exact .inr ⟨a, w ++ r, rfl, w, r, rfl, hbracket⟩
  · rintro (⟨w, r, rfl, hname⟩ | ⟨a, b, rfl, w, r, rfl, hbracket⟩)
    · exact ⟨[], w ++ r, rfl, w, r, rfl, accepts_xmlIgnore.mpr (.inl ⟨rfl, hname⟩)⟩
    · exact ⟨a, w ++ r, rfl, w, r, rfl, accepts_xmlIgnore.mpr (.inr hbracket)⟩

theorem occurs_bracketed_front (x x' : Option Char) {t : Text} (h : bracketed.Occurs x t) :
    bracketed.Occurs x' t := by
  obtain ⟨a, b, rfl, w, r, rfl, hacc⟩ := h
  obtain ⟨w₁, w₂, rfl, ⟨c, rfl, hc⟩, h₂⟩ := accepts_append.mp hacc
  exact ⟨a, _, rfl, [c] ++ w₂, r, rfl, accepts_append.mpr ⟨[c], w₂, rfl, ⟨c, rfl, hc⟩, h₂⟩⟩

/-- The characters that end a member: the repair cuts the text only behind one of them. -/
def memberEnds : List Char :=
  [';', '}']

theorem attributeName_local : attributeName.isLocal = true ∧ attributeName.mayBeEmpty = false
    ∧ bracketed.isLocal = true ∧ bracketed.mayBeEmpty = false
    ∧ memberEnds.all (fun c => attributeName.avoids c && bracketed.avoids c) = true := by
  decide

/-- No attribute goes over the end of a member. -/
theorem avoids_memberEnd {c : Char} (hc : c ∈ memberEnds) :
    attributeName.avoids c = true ∧ bracketed.avoids c = true := by
  obtain ⟨-, -, -, -, hall⟩ := attributeName_local
  simpa using List.all_eq_true.mp hall c hc

/-- So an attribute is on one side of such an end. -/
theorem occurs_bracketed_cut {c : Char} (hc : c ∈ memberEnds) (u z : Text) :
    bracketed.Occurs none (u ++ c :: z) ↔ bracketed.Occurs none (u ++ [c]) ∨ bracketed.Occurs none z := by
  obtain ⟨-, -, hbracket, hempty, -⟩ := attributeName_local
  rw [occurs_barrier hbracket (avoids_memberEnd hc).2 hempty]
  exact or_congr_right ⟨occurs_bracketed_front _ _, occurs_bracketed_front _ _⟩

/-- **No attribute crosses the end of a member:** it stands in front of it, or behind it and then
behind a bracket or a comma. -/
theorem occurs_xmlIgnore_cut {c : Char} (hc : c ∈ memberEnds) (u z : Text) :
    Brush.xmlIgnore.Occurs none (u ++ c :: z) ↔
      Brush.xmlIgnore.Occurs none (u ++ [c]) ∨ bracketed.Occurs none z := by
  obtain ⟨hname, -, hbracket, hempty, -⟩ := attributeName_local
  obtain ⟨havoid, havoid'⟩ := avoids_memberEnd hc
  rw [occurs_xmlIgnore, occurs_xmlIgnore, occurs_barrier hbracket havoid' hempty, or_assoc]
  refine or_congr ⟨startsAt_barrier hname havoid none u z [], startsAt_barrier hname havoid none u [] z⟩
    (or_congr_right ⟨occurs_bracketed_front _ _, occurs_bracketed_front _ _⟩)

/-- The end of a member in front of a line hides only the start of the line. -/
theorem occurs_xmlIgnore_cons {c : Char} (hc : c ∈ memberEnds) (z : Text) :
    Brush.xmlIgnore.Occurs none (c :: z) ↔ bracketed.Occurs none z := by
  obtain ⟨hname, hempty, hbracket, hempty', -⟩ := attributeName_local
  obtain ⟨havoid, havoid'⟩ := avoids_memberEnd hc
  have hnone : ¬ Brush.xmlIgnore.Occurs none [c] := by
    have hstart : ∀ {p : Pattern} {x : Option Char}, p.avoids c = true → p.mayBeEmpty = false →
        ¬ p.StartsAt x [c] := by
      rintro p x hp hp' ⟨w, r, hsplit, hacc⟩
      obtain ⟨u', hu, -⟩ := eq_append_of_not_mem (u := []) hsplit.symm (not_mem_of_accepts hp hacc)
      obtain ⟨rfl, -⟩ := List.append_eq_nil_iff.mp hu.symm
      exact consumes_of_mayBeEmpty hp' x r hacc
    rw [occurs_xmlIgnore, occurs_cons, occurs_nil]
    rintro (h | h | ⟨w, r, hsplit, hacc⟩)
    · exact hstart havoid hempty h
    · exact hstart havoid' hempty' h
    · obtain ⟨rfl, rfl⟩ := List.append_eq_nil_iff.mp hsplit.symm
      exact consumes_of_mayBeEmpty hempty' _ _ hacc
  have hcut := occurs_xmlIgnore_cut hc [] z
  rw [List.nil_append, List.nil_append] at hcut
  rw [hcut]
  exact or_iff_right hnone

/-! ## Marked properties -/

/-- The property that starts between `g` and `x` has its attribute. -/
def Marked (g x : Text) : Prop :=
  Brush.isIgnored? (lines (g ++ x)) (lineOf (g ++ x) g.length) = .ok true

instance (g x : Text) : Decidable (Marked g x) :=
  inferInstanceAs (Decidable (_ = _))

/-- **The attribute is looked for** on the property's line and on the lines above it. -/
theorem marked_iff {g x : Text} :
    Marked g x ↔ Brush.xmlIgnore.Occurs none (lineFront g ++ lineBack x)
      ∨ Brush.ignoredAbove ((above g).take Brush.lookback) = true := by
  rw [Marked, Brush.isIgnored?_append, Except.ok.injEq, Bool.or_eq_true, occursIn_iff, ownLine]

/-- **A new line with the attribute** does not hide the attribute from the search above. -/
theorem ignoredAbove_insert {A Z : List Text} {l : Text} (hl : Brush.xmlIgnore.occursIn l = true)
    {n : Nat} (h : Brush.ignoredAbove ((A ++ Z).take n) = true) :
    Brush.ignoredAbove ((A ++ l :: Z).take n) = true := by
  induction A generalizing n with
  | nil =>
    cases n with
    | zero => cases h
    | succ n =>
      show Brush.ignoredAbove (l :: Z.take n) = true
      rw [Brush.ignoredAbove, hl, Bool.true_or]
  | cons a A ih =>
    cases n with
    | zero => cases h
    | succ n =>
      simp only [List.cons_append, List.take_succ_cons, Brush.ignoredAbove, Bool.or_eq_true,
        Bool.and_eq_true] at h ⊢
      exact h.imp_right (And.imp_right ih)

/-- Nor does a change of the topmost line that keeps the attribute, whatever then stands above. -/
theorem ignoredAbove_replace {A Z : List Text} {l l' : Text}
    (hl : Brush.xmlIgnore.occursIn l = true → Brush.xmlIgnore.occursIn l' = true) {n : Nat}
    (h : Brush.ignoredAbove ((A ++ [l]).take n) = true) :
    Brush.ignoredAbove ((A ++ l' :: Z).take n) = true := by
  induction A generalizing n with
  | nil =>
    cases n with
    | zero => cases h
    | succ n =>
      have hmark : Brush.xmlIgnore.occursIn l = true := by
        simpa [Brush.ignoredAbove] using h
      show Brush.ignoredAbove (l' :: Z.take n) = true
      rw [Brush.ignoredAbove, hl hmark, Bool.true_or]
  | cons a A ih =>
    cases n with
    | zero => cases h
    | succ n =>
      simp only [List.cons_append, List.take_succ_cons, Brush.ignoredAbove, Bool.or_eq_true,
        Bool.and_eq_true] at h ⊢
      exact h.imp_right (And.imp_right ih)

/-! ## What keeps the attribute in sight -/

theorem EndsLine.eq_nil_or {l : Text} (h : EndsLine l) : l = [] ∨ ∃ p, l = p ++ ['\n'] := by
  rcases List.eq_nil_or_concat l with rfl | ⟨p, c, rfl⟩
  · exact .inl rfl
  · obtain rfl : c = '\n' := h c (by simp)
    exact .inr ⟨p, by simp⟩

theorem lineFront_of_endsLine {l : Text} (h : EndsLine l) (t : Text) :
    lineFront (l ++ t) = lineFront t := by
  rcases EndsLine.eq_nil_or h with rfl | ⟨p, rfl⟩
  · rfl
  · rw [List.append_assoc, List.singleton_append, lineFront_append_feed]

theorem above_of_endsLine {l : Text} (h : EndsLine l) (t : Text) :
    above (l ++ t) = above t ++ above l := by
  rcases EndsLine.eq_nil_or h with rfl | ⟨p, rfl⟩
  · simp [above_of_not_mem]
  · rw [List.append_assoc, List.singleton_append, above_append_feed, above_append_feed]
    simp [above_of_not_mem]

theorem ne_feed_of_memberEnd {c : Char} (hc : c ∈ memberEnds) : c ≠ '\n' := by
  rintro rfl
  simp [memberEnds] at hc

/-- The lines above the property have the attribute, whatever stands on its own line. -/
def MarkedAbove (g : Text) : Prop :=
  Brush.ignoredAbove ((above g).take Brush.lookback) = true

/-- The line that the property starts does not have the attribute behind the start. -/
def Bare (x : Text) : Prop :=
  ¬ bracketed.Occurs none (lineBack x)

/-- An attribute in the lines above counts, whatever follows on the line. -/
theorem MarkedAbove.marked {g : Text} (h : MarkedAbove g) (x : Text) : Marked g x :=
  marked_iff.mpr (.inr h)

section Line

variable {l line : Text} (hl : EndsLine l) (hline : '\n' ∉ line)

include hl hline

theorem above_insert_line (k : Text) :
    above (l ++ (line ++ '\n' :: k)) = above k ++ line :: above l := by
  rw [above_of_endsLine hl, above_append_feed, lineFront_of_not_mem hline, above_of_not_mem hline]
  simp

omit hline in
theorem lineFront_insert_line (k : Text) :
    lineFront (l ++ (line ++ '\n' :: k)) = lineFront (l ++ k) := by
  rw [lineFront_of_endsLine hl, lineFront_append_feed, lineFront_of_endsLine hl]

/-- **A line with the attribute** may be put between the lines. -/
theorem Marked.insert_line (hmark : Brush.xmlIgnore.occursIn line = true) {k x : Text}
    (h : Marked (l ++ k) x) : Marked (l ++ (line ++ '\n' :: k)) x := by
  rw [marked_iff] at h ⊢
  rw [lineFront_insert_line hl, above_insert_line hl hline]
  rw [above_of_endsLine hl] at h
  exact h.imp_right (ignoredAbove_insert hmark)

/-- The line that is put above a property marks it. -/
theorem markedAbove_insert_line (hmark : Brush.xmlIgnore.occursIn line = true) {f : Text}
    (hf : '\n' ∉ f) : MarkedAbove (l ++ (line ++ '\n' :: f)) := by
  rw [MarkedAbove, above_insert_line hl hline, above_of_not_mem hf, List.nil_append, Brush.lookback,
    List.take_succ_cons, Brush.ignoredAbove, hmark, Bool.true_or]

end Line

/-- What stands behind the property's line does not matter. -/
theorem marked_feed {g u z z' : Text} (h : Marked g (u ++ '\n' :: z)) :
    Marked g (u ++ '\n' :: z') := by
  rw [marked_iff, lineBack_append_feed] at h ⊢
  exact h

theorem bare_feed {u z z' : Text} (h : Bare (u ++ '\n' :: z)) : Bare (u ++ '\n' :: z') := by
  rw [Bare, lineBack_append_feed] at h ⊢
  exact h

section Cut

variable {c c' : Char} (hc : c ∈ memberEnds) (hc' : c' ∈ memberEnds)

include hc

theorem lineBack_memberEnd {u : Text} (hu : '\n' ∉ u) (z : Text) :
    lineBack (u ++ c :: z) = u ++ c :: lineBack z := by
  have hfeed : '\n' ∉ u ++ [c] := by simp [hu, (ne_feed_of_memberEnd hc).symm]
  simpa using lineBack_append hfeed z

/-- **What is cut off behind the end of a member** may be anything. -/
theorem Marked.extend_right {g u : Text} (h : Marked g (u ++ [c])) (z : Text) :
    Marked g (u ++ c :: z) := by
  by_cases hu : '\n' ∈ u
  · obtain ⟨u₁, u₂, rfl, -⟩ := List.eq_append_cons_of_mem hu
    rw [List.append_assoc, List.cons_append] at h ⊢
    exact marked_feed h
  · rw [marked_iff, lineBack_memberEnd hc hu, ← List.append_assoc] at h ⊢
    rw [occurs_xmlIgnore_cut hc]
    exact h.imp_left .inl

/-- An attribute that does not stand behind the start of the property is not cut off. -/
theorem Marked.cut_right {g u z : Text} (h : Marked g (u ++ c :: z)) (hbare : Bare (u ++ c :: z)) :
    Marked g (u ++ [c]) := by
  by_cases hu : '\n' ∈ u
  · obtain ⟨u₁, u₂, rfl, -⟩ := List.eq_append_cons_of_mem hu
    rw [List.append_assoc, List.cons_append] at h ⊢
    exact marked_feed h
  · rw [Bare, lineBack_memberEnd hc hu, occurs_bracketed_cut hc] at hbare
    rw [marked_iff, lineBack_memberEnd hc hu, ← List.append_assoc, occurs_xmlIgnore_cut hc] at h
    rw [marked_iff, lineBack_memberEnd hc hu, ← List.append_assoc]
    exact h.imp_left fun hocc => hocc.resolve_right fun hback => hbare (.inr hback)

/-- The line stays bare when it is cut and goes on without the attribute. -/
theorem Bare.cut_right {u z z' : Text} (h : Bare (u ++ c :: z)) (hz' : Bare z') :
    Bare (u ++ c :: z') := by
  by_cases hu : '\n' ∈ u
  · obtain ⟨u₁, u₂, rfl, -⟩ := List.eq_append_cons_of_mem hu
    rw [List.append_assoc, List.cons_append] at h ⊢
    exact bare_feed h
  · rw [Bare, lineBack_memberEnd hc hu, occurs_bracketed_cut hc] at h ⊢
    exact fun hocc => hocc.elim (fun hfront => h (.inl hfront)) hz'

include hc'

/-- **What is cut off in front of the end of a member** may be anything. -/
theorem Marked.extend_left {k x : Text} (h : Marked (c :: k) x) (y : Text) :
    Marked (y ++ c' :: k) x := by
  have hfeed := (ne_feed_of_memberEnd hc).symm
  have hfeed' := (ne_feed_of_memberEnd hc').symm
  rw [marked_iff] at h ⊢
  by_cases hk : '\n' ∈ k
  · obtain ⟨u, q, rfl, hu⟩ := List.eq_append_cons_of_mem hk
    have hcu : '\n' ∉ c :: u := by simp [hu, hfeed]
    have hcu' : '\n' ∉ c' :: u := by simp [hu, hfeed']
    rw [← List.cons_append, ← List.append_assoc] at *
    rw [lineFront_append_feed, above_append_feed, lineFront_of_not_mem hcu, above_of_not_mem hcu] at h
    rw [lineFront_append_feed, above_append_feed, lineFront_append y hcu', above_append y hcu']
    refine h.imp_right (ignoredAbove_replace (fun hmark => ?_))
    rw [occursIn_iff] at hmark ⊢
    rw [occurs_xmlIgnore_cut hc']
    exact .inr ((occurs_xmlIgnore_cons hc u).mp hmark)
  · have hck : '\n' ∉ c :: k := by simp [hk, hfeed]
    have hck' : '\n' ∉ c' :: k := by simp [hk, hfeed']
    rw [lineFront_of_not_mem hck, above_of_not_mem hck, List.cons_append] at h
    rw [lineFront_append y hck', List.append_assoc, List.cons_append, occurs_xmlIgnore_cut hc']
    rcases h with h | h
    · exact .inl (.inr ((occurs_xmlIgnore_cons hc _).mp h))
    · cases h

end Cut

end Repair

end ChartLint
