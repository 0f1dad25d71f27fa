import ChartLint.Proofs.Repair.Spot

/-!
# Properties and their initial values

A companion is meant to stand behind the whole declaration of its property, the initial value included. The
repair reads the initial value with one pattern behind the closing brace: spaces and tabs, an equals sign, and
what follows it up to a semicolon, without braces. `severed_iff` says for every script what this costs:
a property is cut off from its initial value exactly where the pattern overlooks the value (`Overlooked`), on
another line or with braces in it, or where another value follows the first.
-/

namespace ChartLint.Repair

open Pattern Text Source Rule

/-- The text goes on with an initial value: its first character that is not blank is an equals sign. -/
def GoesOn (z : Text) : Prop :=
  (trimStartBy isBlank z).head? = some '='

instance (z : Text) : Decidable (GoesOn z) :=
  inferInstanceAs (Decidable (_ = _))

theorem goesOn_iff {z : Text} :
    GoesOn z ↔ ∃ s t, z = s ++ '=' :: t ∧ ∀ c ∈ s, isBlank c = true := by
  constructor
  · intro h
    obtain ⟨t, ht⟩ := List.head?_eq_some_iff.mp h
    refine ⟨z.takeWhile isBlank, t, ?_, fun c hc => List.mem_takeWhile_imp hc⟩
    rw [← ht]
    exact List.takeWhile_append_dropWhile.symm
  · rintro ⟨s, t, rfl, hs⟩
    show ((s ++ '=' :: t).dropWhile isBlank).head? = some '='
    rw [List.dropWhile_append_of_pos hs]
    rfl

/-- An initial value that the repair overlooks: another blank than a space or a tab stands in front of its
equals sign, or the first stop behind the sign is not a semicolon. -/
def Overlooked (z : Text) : Prop :=
  ∃ s t, z = s ++ '=' :: t ∧ (∀ c ∈ s, isBlank c = true)
    ∧ ((∃ c ∈ s, isIndent c = false) ∨ t.find? isStop ≠ some ';')

/-- A second initial value behind the first. -/
def Repeated (z : Text) : Prop :=
  ∃ w r, z = w ++ r ∧ IsValue w ∧ GoesOn r

theorem isBlank_of_isIndent {c : Char} (h : isIndent c = true) : isBlank c = true := by
  rcases (by simpa [isIndent] using h : c = ' ' ∨ c = '\t') with rfl | rfl <;> decide

theorem find?_isStop_eq_semicolon {t : Text} :
    t.find? isStop = some ';' ↔ ∃ u r, t = u ++ ';' :: r ∧ ∀ c ∈ u, isStop c = false := by
  rw [List.find?_eq_some_iff_append]
  constructor
  · rintro ⟨-, u, r, rfl, hu⟩
    exact ⟨u, r, rfl, fun c hc => by simpa using hu c hc⟩
  · rintro ⟨u, r, rfl, hu⟩
    exact ⟨rfl, u, r, rfl, fun c hc => by simp [hu c hc]⟩

/-- **An initial value is overlooked** exactly where the text goes on with one and the pattern reads none. -/
theorem overlooked_iff {z : Text} : Overlooked z ↔ GoesOn z ∧ Value z [] := by
  constructor
  · rintro ⟨s, t, rfl, hs, hmissed⟩
    refine ⟨goesOn_iff.mpr ⟨s, t, rfl, hs⟩, .inr ⟨rfl, ?_⟩⟩
    rintro w ⟨s', t', rfl, hs', ht'⟩ ⟨r, heq⟩
    -- both texts are cut at their first equals sign
    have hnone : ∀ {u : Text}, (∀ c ∈ u, isBlank c = true) → '=' ∉ u := by
      intro u hu hmem
      cases hu _ hmem
    obtain ⟨rfl, rfl⟩ := eq_of_append_cons (by simpa using heq)
      (hnone fun c hc => isBlank_of_isIndent (hs' c hc)) (hnone hs)
    rcases hmissed with ⟨c, hc, hindent⟩ | hfind
    · rw [hs' c hc] at hindent
      cases hindent
    · exact hfind (find?_isStop_eq_semicolon.mpr ⟨t', r, by simp, ht'⟩)
  · rintro ⟨hgoes, hvalue⟩
    obtain ⟨s, t, rfl, hs⟩ := goesOn_iff.mp hgoes
    refine ⟨s, t, rfl, hs, ?_⟩
    by_contra! hread
    obtain ⟨hindent, hfind⟩ := hread
    obtain ⟨u, r, rfl, hu⟩ := find?_isStop_eq_semicolon.mp hfind
    rcases hvalue with ⟨⟨s', t', heq, -⟩, -⟩ | ⟨-, hnone⟩
    · cases s' <;> cases heq
    · refine hnone (s ++ '=' :: (u ++ [';'])) ⟨s, u, rfl, ?_, hu⟩ ⟨r, by simp⟩
      intro c hc
      simpa using hindent c hc

/-- The text behind a property goes on with an initial value where the repair overlooks one, or reads one of
two. -/
theorem goesOn_drop_value {z value : Text} (h : Value z value) :
    GoesOn (z.drop value.length) ↔ Overlooked z ∨ Repeated z := by
  rw [overlooked_iff]
  constructor
  · intro hgoes
    rcases h with ⟨hvalue, r, rfl⟩ | ⟨rfl, hnone⟩
    · rw [List.drop_left] at hgoes
      exact .inr ⟨value, r, rfl, hvalue, hgoes⟩
    · exact .inl ⟨hgoes, .inr ⟨rfl, hnone⟩⟩
  · rintro (⟨hgoes, hnil⟩ | ⟨w, r, rfl, hw, hgoes⟩)
    · rwa [h.unique hnil]
    · have hread : Value (w ++ r) w := .inl ⟨hw, List.prefix_append w r⟩
      rwa [h.unique hread, List.drop_left]

/-- The repair cuts a property off from its initial value: it puts the companion at an offset from which the
text goes on with the value. -/
def Severed (newline code prop : Text) : Prop :=
  ∃ o indent, companionSpot? (Lexing.mask code) prop = some o
    ∧ addCompanion newline code prop = insertAt code o (companionBlock newline indent prop)
    ∧ GoesOn ((Lexing.mask code).drop o)

theorem severed_iff_spot {newline code prop : Text} :
    Severed newline code prop
      ↔ ∃ o, companionSpot? (Lexing.mask code) prop = some o ∧ GoesOn ((Lexing.mask code).drop o) := by
  constructor
  · rintro ⟨o, indent, hspot, -, hgoes⟩
    exact ⟨o, hspot, hgoes⟩
  · rintro ⟨o, hspot, hgoes⟩
    rcases addCompanion_eq newline code prop with ⟨hnone, -⟩ | ⟨o', indent, hspot', -, heq⟩
    · rw [hnone] at hspot
      cases hspot
    · obtain rfl := Option.some.inj (hspot'.symm.trans hspot)
      exact ⟨o', indent, hspot, heq, hgoes⟩

/-- **Properties and their initial values:** the repair cuts a property off from its initial value exactly if
the property is closed and has no companion yet, and the value is overlooked or is the first of two. -/
theorem severed_iff (newline code prop : Text) :
    Severed newline code prop
      ↔ (Brush.companion prop).occursIn (Lexing.mask code) = false
        ∧ ∃ m, declaration? (Lexing.mask code) prop = some m
          ∧ matchingBrace (Lexing.mask code) (m.stop - 1) < code.length
          ∧ let z := (Lexing.mask code).drop (matchingBrace (Lexing.mask code) (m.stop - 1) + 1)
            Overlooked z ∨ Repeated z := by
  rw [severed_iff_spot, ← Lexing.length_mask code]
  set masked := Lexing.mask code
  have hend : ∀ close, GoesOn (masked.drop (declarationEnd masked close))
      ↔ Overlooked (masked.drop (close + 1)) ∨ Repeated (masked.drop (close + 1)) := by
    intro close
    obtain ⟨value, hvalue⟩ := exists_value (masked.drop (close + 1))
    rw [declarationEnd_of_value hvalue, ← List.drop_drop, goesOn_drop_value hvalue]
  unfold companionSpot?
  constructor
  · rintro ⟨o, hspot, hgoes⟩
    split at hspot
    · cases hspot
    · next hcompanion =>
      cases hm : declaration? masked prop with
      | none =>
        rw [hm] at hspot
        cases hspot
      | some m =>
        simp only [hm, Option.ite_none_left_eq_some, Option.some.injEq, not_le] at hspot
        obtain ⟨hclosed, rfl⟩ := hspot
        exact ⟨by simpa using hcompanion, m, rfl, hclosed, (hend _).mp hgoes⟩
  · rintro ⟨hcompanion, m, hm, hclosed, hz⟩
    refine ⟨declarationEnd masked (matchingBrace masked (m.stop - 1)), ?_, (hend _).mpr hz⟩
    simp [hcompanion, hm, hclosed]

/-- An initial value on a line of its own: the companion comes to stand between the property and the value. -/
theorem severed_nextLine :
    Severed ['\n'] "public Brush X \x7b get; set; \x7d\n= Brushes.Red;".toList "X".toList :=
  ⟨_, [], rfl, rfl, by decide +kernel⟩

/-- An initial value with braces of its own. -/
example : Severed ['\n'] "public Brush X \x7b get; set; \x7d = new Tint \x7b \x7d;".toList "X".toList :=
  ⟨_, [], rfl, rfl, by decide +kernel⟩

end ChartLint.Repair
