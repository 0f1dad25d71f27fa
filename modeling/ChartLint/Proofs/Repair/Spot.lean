import ChartLint.Proofs.Repair.Head
import ChartLint.Proofs.Repair.Insertion

/-!
# Where companions are put

The companion of a property goes behind the property: behind its closing brace, or behind the initial
value that follows the brace (`companionSpot?`). An initial value survives what the repair puts behind
the brace: it stays as it is, or a line in its middle makes it longer (`Value.of_insert`).
-/

namespace ChartLint.Repair

open Pattern Text Source Rule

/-! ## Initial values -/

/-- A character that ends an initial value, or that an initial value does not cross. -/
def isStop (c : Char) : Bool :=
  oneOf [';', '{', '}'] c

/-- The text of an initial value, from behind the brace up to the semicolon. -/
def IsValue (w : Text) : Prop :=
  ∃ s t, w = s ++ '=' :: (t ++ [';']) ∧ (∀ c ∈ s, isIndent c = true) ∧ ∀ c ∈ t, isStop c = false

theorem accepts_initialValue {x : Option Char} {w r : Text} :
    initialValue.Accepts x w r ↔ IsValue w := by
  have hindent : ∀ {s : Text}, (∀ c ∈ s, oneOf [' ', '\t'] c = true) ↔ ∀ c ∈ s, isIndent c = true := by
    intro s
    simp [oneOf, isIndent]
  have hstop : ∀ {s : Text},
      (∀ c ∈ s, noneOf [';', '{', '}'] c = true) ↔ ∀ c ∈ s, isStop c = false := by
    intro s
    simp [noneOf, isStop, oneOf]
  simp only [initialValue, accepts_append_assoc]
  simp only [accepts_append, accepts_many, accepts_text, hindent, hstop, IsValue]
  constructor
  · rintro ⟨s, _, rfl, hs, _, _, rfl, rfl, t, _, rfl, ht, rfl⟩
    exact ⟨s, t, rfl, hs, ht⟩
  · rintro ⟨s, t, rfl, hs, ht⟩
    exact ⟨s, _, rfl, hs, _, _, rfl, rfl, t, _, rfl, ht, rfl⟩

/-- An initial value ends with its first stop. -/
theorem IsValue.stop {w : Text} (h : IsValue w) :
    ∃ w₀, w = w₀ ++ [';'] ∧ ∀ c ∈ w₀, isStop c = false := by
  obtain ⟨s, t, rfl, hs, ht⟩ := h
  refine ⟨s ++ '=' :: t, by simp, ?_⟩
  intro c hc
  rcases List.mem_append.mp hc with hc | hc
  · have hor : c = ' ' ∨ c = '\t' := by simpa [isIndent] using hs c hc
    rcases hor with rfl | rfl <;> rfl
  · rcases List.mem_cons.mp hc with rfl | hc
    · rfl
    · exact ht c hc

/-- What follows a closing brace in `z` as its initial value; empty if there is none. -/
def Value (z value : Text) : Prop :=
  (IsValue value ∧ value <+: z) ∨ (value = [] ∧ ∀ w, IsValue w → ¬ w <+: z)

theorem exists_value (z : Text) : ∃ value, Value z value := by
  by_cases h : ∃ w, IsValue w ∧ w <+: z
  · obtain ⟨w, hw⟩ := h
    exact ⟨w, .inl hw⟩
  · exact ⟨[], .inr ⟨rfl, fun w hw hfront => h ⟨w, hw, hfront⟩⟩⟩

theorem Value.unique {z value value' : Text} (h : Value z value) (h' : Value z value') :
    value = value' := by
  rcases h with ⟨hvalue, r, rfl⟩ | ⟨rfl, hnone⟩
  · rcases h' with ⟨hvalue', r', heq⟩ | ⟨-, hnone⟩
    · obtain ⟨w, rfl, hw⟩ := hvalue.stop
      obtain ⟨w', rfl, hw'⟩ := hvalue'.stop
      have hstop : ∀ {u : Text}, (∀ c ∈ u, isStop c = false) → ';' ∉ u := by
        intro u hu hmem
        cases hu _ hmem
      rw [List.append_assoc, List.append_assoc] at heq
      rw [(eq_of_append_cons heq (hstop hw') (hstop hw)).1]
    · exact absurd (List.prefix_append value r) (hnone value hvalue)
  · rcases h' with ⟨hvalue', hfront⟩ | ⟨rfl, -⟩
    · exact absurd hfront (hnone value' hvalue')
    · rfl

/-- **The end of a property** lies behind its initial value. -/
theorem declarationEnd_of_value {masked value : Text} {close : Nat}
    (h : Value (masked.drop (close + 1)) value) :
    declarationEnd masked close = close + 1 + value.length := by
  unfold declarationEnd
  cases hm : initialValue.matchAt? (Cursor.ofOffset masked (close + 1)) with
  | none =>
    have hno := matchAt?_eq_none.mp hm
    rcases h with ⟨hvalue, r, hr⟩ | ⟨rfl, -⟩
    · exact absurd ⟨value, r, hr.symm, accepts_initialValue.mpr hvalue⟩ hno
    · rfl
  | some m =>
    obtain ⟨w, r, hsplit, hacc, -, hstop⟩ := accepts_of_matchAt? hm
    have hw : Value (masked.drop (close + 1)) w := .inl ⟨accepts_initialValue.mp hacc, r, hsplit.symm⟩
    show m.stop = close + 1 + value.length
    rw [hstop, hw.unique h]

/-! ### An insertion behind the brace -/

theorem isValue_feed {z y : Text} :
    IsValue (z ++ '\n' :: y)
      ↔ (∃ s t, z = s ++ '=' :: t ∧ (∀ c ∈ s, isIndent c = true) ∧ ∀ c ∈ t, isStop c = false)
        ∧ ∃ u, y = u ++ [';'] ∧ ∀ c ∈ u, isStop c = false := by
  constructor
  · rintro ⟨s, t, heq, hs, ht⟩
    have hfeed : '\n' ∉ s ++ ['='] := by
      intro hmem
      rcases List.mem_append.mp hmem with hmem | hmem
      · cases hs _ hmem
      · simp at hmem
    have hcut : (s ++ ['=']) ++ (t ++ [';']) = z ++ '\n' :: y := by rw [heq]; simp
    obtain ⟨t₁, rfl, ht₁⟩ := eq_append_of_not_mem hcut hfeed
    rcases List.eq_nil_or_concat y with rfl | ⟨u, c, rfl⟩
    · have hlast := congrArg List.getLast? ht₁
      simp at hlast
    · rw [List.concat_eq_append] at ht₁ ⊢
      have hends : t ++ [';'] = (t₁ ++ '\n' :: u) ++ [c] := by rw [ht₁]; simp
      obtain ⟨rfl, hc⟩ := List.append_inj' hends rfl
      obtain rfl : ';' = c := by simpa using hc
      simp only [List.forall_mem_append, List.forall_mem_cons] at ht
      exact ⟨⟨s, t₁, by simp, hs, ht.1⟩, u, rfl, ht.2.2⟩
  · rintro ⟨⟨s, t, rfl, hs, ht⟩, u, rfl, hu⟩
    refine ⟨s, t ++ '\n' :: u, by simp, hs, ?_⟩
    simp only [List.forall_mem_append, List.forall_mem_cons]
    exact ⟨ht, rfl, hu⟩

/-- A line without stops in the middle of an initial value changes only its length. -/
theorem isValue_insert {z v e : Text} (hv : ∀ c ∈ v, isStop c = false) (he : e ≠ []) :
    IsValue (z ++ ['\n'] ++ (v ++ e)) ↔ IsValue (z ++ ['\n'] ++ e) := by
  simp only [List.append_assoc, List.singleton_append, isValue_feed]
  refine and_congr_right' ⟨?_, ?_⟩
  · rintro ⟨u, hu, hstop⟩
    obtain ⟨e', c, rfl⟩ := (List.eq_nil_or_concat e).resolve_left he
    rw [List.concat_eq_append, ← List.append_assoc] at hu
    obtain ⟨rfl, hc⟩ := List.append_inj' hu rfl
    rw [List.concat_eq_append, hc]
    exact ⟨e', rfl, fun c hc => hstop c (by simp [hc])⟩
  · rintro ⟨u, rfl, hstop⟩
    exact ⟨v ++ u, by simp, List.forall_mem_append.mpr ⟨hv, hstop⟩⟩

/-- An insertion behind `z` leaves the initial value that starts with `z` alone, or makes it longer. -/
def Spares (z v : Text) : Prop :=
  (∃ z₀, z = z₀ ++ ['\n'] ∧ ∀ c ∈ v, isStop c = false) ∨ ∃ z₀ c, z = z₀ ++ [c] ∧ c ∈ memberEnds

/-- **The initial value after an insertion** is as long as before, or longer by the insertion. -/
theorem Value.of_insert {z v b value' : Text} (hspares : Spares z v)
    (h : Value (z ++ (v ++ b)) value') :
    ∃ value, Value (z ++ b) value
      ∧ ((value.length ≤ z.length ∧ value'.length = value.length)
        ∨ (z.length < value.length ∧ value'.length = value.length + v.length)) := by
  -- a value that goes beyond `z` has a counterpart in the other text
  have hbeyond : ∀ {w y : Text}, IsValue w → w <+: z ++ y → z.length < w.length →
      (∃ z₀, z = z₀ ++ ['\n'] ∧ ∀ c ∈ v, isStop c = false) ∧ ∃ e, e ≠ [] ∧ w = z ++ e ∧ e <+: y := by
    intro w y hw hfront hlt
    obtain ⟨e, rfl⟩ : z <+: w :=
      List.prefix_of_prefix_length_le (List.prefix_append z y) hfront (by omega)
    have he : e ≠ [] := by
      rintro rfl
      simp at hlt
    refine ⟨hspares.resolve_right ?_, e, he, rfl, (List.prefix_append_right_inj z).mp hfront⟩
    rintro ⟨z₀, c, rfl, hc⟩
    obtain ⟨w₀, heq, hw₀⟩ := hw.stop
    obtain ⟨e', d, rfl⟩ := (List.eq_nil_or_concat e).resolve_left he
    rw [List.concat_eq_append, ← List.append_assoc] at heq
    obtain ⟨rfl, -⟩ := List.append_inj' heq rfl
    have hstop := hw₀ c (by simp)
    rcases (by simpa [memberEnds] using hc : c = ';' ∨ c = '}') with rfl | rfl <;> cases hstop
  have hwithin : ∀ {w y y' : Text}, w <+: z ++ y → w.length ≤ z.length → w <+: z ++ y' := by
    intro w y y' hfront hle
    exact (List.prefix_of_prefix_length_le hfront (List.prefix_append z y) hle).trans
      (List.prefix_append z y')
  rcases h with ⟨hvalue, hfront⟩ | ⟨rfl, hnone⟩
  · by_cases hle : value'.length ≤ z.length
    · exact ⟨value', .inl ⟨hvalue, hwithin hfront hle⟩, .inl ⟨hle, rfl⟩⟩
    · obtain ⟨⟨z₀, rfl, hv⟩, e, -, rfl, he⟩ := hbeyond hvalue hfront (by omega)
      -- the value has a stop behind the insertion, which has none
      obtain ⟨u, rfl, -⟩ := (isValue_feed.mp (by simpa using hvalue)).2
      have hlt : v.length < (u ++ [';']).length := by
        by_contra hle'
        have hsub : u ++ [';'] <+: v :=
          List.prefix_of_prefix_length_le he (List.prefix_append v b) (by omega)
        cases hv ';' (hsub.subset (by simp))
      obtain ⟨e', heq⟩ : v <+: u ++ [';'] :=
        List.prefix_of_prefix_length_le (List.prefix_append v b) he (by omega)
      have he' : e' ≠ [] := by
        rintro rfl
        rw [List.append_nil] at heq
        rw [← heq] at hlt
        exact absurd hlt (Nat.lt_irrefl _)
      rw [← heq] at he hvalue hle ⊢
      refine ⟨z₀ ++ ['\n'] ++ e', .inl ⟨(isValue_insert hv he').mp hvalue, ?_⟩, .inr ⟨?_, ?_⟩⟩
      · exact (List.prefix_append_right_inj _).mpr ((List.prefix_append_right_inj v).mp he)
      · have hpos : 0 < e'.length := List.length_pos_iff.mpr he'
        simp only [List.length_append]
        omega
      · simp only [List.length_append]
        omega
  · refine ⟨[], .inr ⟨rfl, ?_⟩, .inl ⟨by simp, rfl⟩⟩
    intro w hw hfront
    by_cases hle : w.length ≤ z.length
    · exact hnone w hw (hwithin hfront hle)
    · obtain ⟨⟨z₀, rfl, hv⟩, e, he, rfl, r, rfl⟩ := hbeyond hw hfront (by omega)
      refine hnone _ ((isValue_insert hv he).mpr hw) ⟨r, by simp⟩

/-! ## Spots -/

/-- The offset in masked text at which the companion of a property is to be put; none if the property
has one, is not declared, or is not closed. -/
def companionSpot? (masked prop : Text) : Option Nat :=
  if (Brush.companion prop).occursIn masked then
    none
  else
    match declaration? masked prop with
    | none => none
    | some m =>
      let close := matchingBrace masked (m.stop - 1)
      if masked.length ≤ close then none else some (declarationEnd masked close)

/-- The companion is put at its spot. -/
theorem addCompanion_eq (newline code prop : Text) :
    (companionSpot? (Lexing.mask code) prop = none ∧ addCompanion newline code prop = code)
      ∨ ∃ o indent, companionSpot? (Lexing.mask code) prop = some o
        ∧ (∀ c ∈ indent, isIndent c = true)
        ∧ addCompanion newline code prop
          = insertAt code o (companionBlock newline indent prop) := by
  rw [addCompanion_def]
  unfold companionSpot?
  simp only [Lexing.length_mask]
  split
  · exact .inl ⟨rfl, rfl⟩
  · cases hm : declaration? (Lexing.mask code) prop with
    | none => exact .inl ⟨rfl, rfl⟩
    | some m =>
      simp only
      split
      · exact .inl ⟨rfl, rfl⟩
      · exact .inr ⟨_, _, rfl, isIndent_indentOf code m.start, rfl⟩

/-- The first declaration of a brush property is never closed. -/
def Unclosed (masked prop : Text) : Prop :=
  ∃ m, declaration? masked prop = some m ∧ masked.length ≤ matchingBrace masked (m.stop - 1)

/-- A declared property without a spot has its companion, or is never closed. -/
theorem unclosed_of_companionSpot? {masked prop : Text} {m : Match}
    (h : companionSpot? masked prop = none) (hcompanion : (Brush.companion prop).occursIn masked = false)
    (hm : declaration? masked prop = some m) : Unclosed masked prop := by
  rw [companionSpot?, hcompanion, hm] at h
  refine ⟨m, hm, ?_⟩
  by_contra hlt
  simp [hlt] at h

/-- The brace that closes a property. -/
theorem matchingBrace_of_isHead {prop g w r : Text} (hprop : IsName prop)
    (hhead : IsHead "Brush".toList prop w) :
    matchingBrace (g ++ (w ++ r)) (g.length + w.length - 1)
      = match closing? r with
        | some k => (g ++ w).length + k
        | none => (g ++ (w ++ r)).length := by
  obtain ⟨w₀, rfl, -⟩ := hhead.plain isName_brush hprop
  have hsplit : g ++ (w₀ ++ ['{'] ++ r) = (g ++ w₀) ++ '{' :: r := by simp
  have hopener : g.length + (w₀ ++ ['{']).length - 1 = (g ++ w₀).length := by simp
  rw [hsplit, hopener, matchingBrace_append]
  cases closing? r with
  | none => rfl
  | some k =>
    simp only [List.length_append, List.length_cons, List.length_nil]
    omega

/-- So it is closed exactly if the scan ends. -/
theorem matchingBrace_lt {prop g w r : Text} (hprop : IsName prop) (hhead : IsHead "Brush".toList prop w) :
    matchingBrace (g ++ (w ++ r)) (g.length + w.length - 1) < (g ++ (w ++ r)).length
      ↔ (closing? r).isSome = true := by
  rw [matchingBrace_of_isHead hprop hhead]
  cases hr : closing? r with
  | none => simp
  | some k =>
    obtain ⟨body, z, rfl, rfl⟩ := closing?_eq_some hr
    simp only [List.length_append, List.length_cons, Option.isSome_some, iff_true]
    omega

theorem unclosed_iff {prop t : Text} (hprop : IsName prop) :
    Unclosed t prop ↔ ∃ g w r, t = g ++ (w ++ r) ∧ IsHead "Brush".toList prop w
      ∧ First prop g (w ++ r) ∧ closing? r = none := by
  constructor
  · rintro ⟨m, hm, hle⟩
    obtain ⟨g, w, r, rfl, hhead, hfirst, -, hstop⟩ := first_of_declaration? hm
    refine ⟨g, w, r, rfl, hhead, hfirst, ?_⟩
    rw [hstop, ← Nat.not_lt, matchingBrace_lt hprop hhead] at hle
    simpa using hle
  · rintro ⟨g, w, r, rfl, hhead, hfirst, hr⟩
    obtain ⟨m, hm, -, hstop⟩ := hfirst.declaration? hprop hhead
    refine ⟨m, hm, ?_⟩
    rw [hstop, ← Nat.not_lt, matchingBrace_lt hprop hhead, hr]
    simp

/-- A property that is closed: its head, what stands between its braces, and its initial value, with
`z` behind the closing brace. -/
structure Closed (prop w body z value : Text) : Prop where
  head : IsHead "Brush".toList prop w
  closing : closing? (body ++ '}' :: z) = some body.length
  value : Value z value

/-- **The spot of a companion** lies behind the first declaration of the property. -/
theorem companionSpot?_eq_some {prop t : Text} (hprop : IsName prop) {o : Nat} :
    companionSpot? t prop = some o
      ↔ ¬ HasHead "string".toList (prop ++ Brush.companionEnding) t
        ∧ ∃ g w body z value, t = g ++ (w ++ (body ++ '}' :: z))
          ∧ First prop g (w ++ (body ++ '}' :: z)) ∧ Closed prop w body z value
          ∧ o = (g ++ w ++ body).length + 1 + value.length := by
  -- both directions compute the spot of a closed property
  have hsome : ∀ {g w body z value : Text}, Closed prop w body z value →
      (let t := g ++ (w ++ (body ++ '}' :: z))
        let close := matchingBrace t (g.length + w.length - 1)
        if t.length ≤ close then none else some (declarationEnd t close))
        = some ((g ++ w ++ body).length + 1 + value.length) := by
    intro g w body z value h
    have hclose : matchingBrace (g ++ (w ++ (body ++ '}' :: z))) (g.length + w.length - 1)
        = (g ++ w ++ body).length := by
      rw [matchingBrace_of_isHead hprop h.head, h.closing]
      simp only [List.length_append]
    have hsplit : g ++ (w ++ (body ++ '}' :: z)) = (g ++ w ++ body) ++ '}' :: z := by simp
    simp only [hclose]
    have hvalue : Value (((g ++ w ++ body) ++ '}' :: z).drop ((g ++ w ++ body).length + 1)) value := by
      rw [drop_behind_brace]
      exact h.value
    rw [if_neg (by simp), hsplit, declarationEnd_of_value hvalue]
  rw [companionSpot?, ← occursIn_companion]
  constructor
  · intro h
    split at h
    · cases h
    · next hcompanion =>
      refine ⟨hcompanion, ?_⟩
      cases hm : declaration? t prop with
      | none =>
        rw [hm] at h
        cases h
      | some m =>
        obtain ⟨g, w, r, rfl, hhead, hfirst, -, hstop⟩ := first_of_declaration? hm
        rw [hm] at h
        simp only [hstop] at h
        cases hr : closing? r with
        | none =>
          rw [matchingBrace_of_isHead hprop hhead, hr] at h
          simp at h
        | some k =>
          obtain ⟨body, z, rfl, rfl⟩ := closing?_eq_some hr
          obtain ⟨value, hvalue⟩ := exists_value z
          have hclosed' : Closed prop w body z value := ⟨hhead, hr, hvalue⟩
          refine ⟨g, w, body, z, value, rfl, hfirst, hclosed', ?_⟩
          exact Option.some.inj (h.symm.trans (hsome hclosed'))
  · rintro ⟨hcompanion, g, w, body, z, value, rfl, hfirst, hclosed', rfl⟩
    obtain ⟨m, hm, -, hstop⟩ := hfirst.declaration? hprop hclosed'.head
    rw [if_neg hcompanion, hm]
    simp only [hstop]
    exact hsome hclosed'

/-- The place at which a companion is put: behind the brace of the property, or behind a semicolon. -/
theorem exists_cut {t prop : Text} (hprop : IsName prop) {o : Nat} (h : companionSpot? t prop = some o) :
    ∃ a c b, t = a ++ [c] ++ b ∧ o = (a ++ [c]).length ∧ c ∈ memberEnds
      ∧ (c = '}' → ∃ g w body, a = g ++ w ++ body ∧ IsHead "Brush".toList prop w
        ∧ closing? (body ++ '}' :: b) = some body.length) := by
  obtain ⟨-, g, w, body, z, value, rfl, -, ⟨hhead, hclosing, hvalue⟩, rfl⟩ :=
    (companionSpot?_eq_some hprop).mp h
  rcases hvalue with ⟨hvalue, r, rfl⟩ | ⟨rfl, -⟩
  · obtain ⟨w₀, rfl, -⟩ := hvalue.stop
    refine ⟨g ++ w ++ body ++ '}' :: w₀, ';', r, by simp, ?_, by decide, by simp⟩
    simp only [List.length_append, List.length_cons, List.length_nil]
    omega
  · refine ⟨g ++ w ++ body, '}', z, by simp, ?_, by decide, fun _ => ⟨g, w, body, rfl, hhead, hclosing⟩⟩
    simp only [List.length_append, List.length_cons, List.length_nil]

end ChartLint.Repair
