import ChartLint.Proofs.Lexing.Layout
import ChartLint.Proofs.Lexing.Segmentation

/-!
# Masked text opens nothing

Masking leaves the plain characters where they stand and puts blanks between them, so characters that
the script keeps apart by a comment or a literal stay apart. What is to be shown is that no two plain
characters that stand side by side, and no half of an opener that masking leaves behind, open a token
anew.

The step lemma is `stepGround_shown`: what one step of the scanner leaves in the mask opens nothing,
whatever mode the step was made in. From it, no rule of the grammar applies anywhere in a mask
(`first?_suffix_mask`), so none of the openers stands there (`not_infix_mask`) and the mask is read as
plain characters only (`segments_mask`).
-/

namespace ChartLint.Lexing

/-- Where the scanner reads code no rule applies. -/
theorem first?_of_stepGround {c : Char} {rest : Text} (h : stepGround c rest = (.code, .ground)) :
    TokenRule.first? (c :: rest) = none := by
  cases hfirst : TokenRule.first? (c :: rest) with
  | none => rfl
  | some rule =>
    obtain ⟨opener, hopener, hp⟩ := List.any_eq_true.mp (opens_of_first? hfirst)
    obtain ⟨inside, hinside⟩ := List.isPrefixOf_iff_prefix.mp hp
    -- behind each of the openers the scanner is in a token
    cases rule <;>
      simp only [TokenRule.openers, List.mem_cons, List.not_mem_nil, or_false] at hopener
    all_goals
      rcases hopener with rfl | rfl | rfl <;> cases hinside <;> cases h

/-- In the mask of a text that the scanner reads on from a state, no rule applies at any place. -/
theorem first?_suffix_maskFrom {s : State} {t : Text} (hs : Anchored s t) {u : Text}
    (hu : u <:+ maskFrom s t) : TokenRule.first? u = none := by
  induction t generalizing s with
  | nil =>
    rw [maskFrom_nil, List.suffix_nil] at hu
    subst hu
    rfl
  | cons c rest ih =>
    rw [maskFrom_cons, List.suffix_cons_iff] at hu
    rcases hu with rfl | hu
    · exact first?_of_stepGround (stepGround_shown hs)
    · exact ih hs.step hu

/-- **No rule applies anywhere in a mask.** -/
theorem first?_suffix_mask {code u : Text} (hu : u <:+ mask code) : TokenRule.first? u = none :=
  first?_suffix_maskFrom (anchored_ground code) hu

/-- No opener of a comment or a literal stands in a mask. -/
theorem not_infix_mask (code : Text) (rule : TokenRule) {opener : Text}
    (h : opener ∈ rule.openers) : ¬ opener <:+: mask code := by
  rintro ⟨front, behind, hsplit⟩
  have hsuffix : opener ++ behind <:+ mask code := ⟨front, by rw [← hsplit, List.append_assoc]⟩
  have hnone : ∀ rule ∈ TokenRule.all, ¬ rule.opens (opener ++ behind) = true :=
    List.find?_eq_none.mp (first?_suffix_mask hsuffix)
  have hopens : rule.opens (opener ++ behind) = true :=
    List.any_eq_true.mpr ⟨opener, h, List.isPrefixOf_iff_prefix.mpr (List.prefix_append _ _)⟩
  exact hnone rule (by cases rule <;> simp [TokenRule.all]) hopens

/-- A text in which no rule applies is read as plain characters. -/
theorem segments_plain {t : Text} (h : ∀ u, u <:+ t → TokenRule.first? u = none) :
    Segments t (t.map .plain) := by
  induction t with
  | nil => exact .done
  | cons c rest ih =>
    have hrest : Segments rest (rest.map .plain) :=
      ih fun u hu => h u (hu.trans (List.suffix_cons c rest))
    exact .plain (h _ List.suffix_rfl) hrest

/-- A mask is read as plain characters. -/
theorem segments_mask (code : Text) : Segments (mask code) ((mask code).map .plain) :=
  segments_plain fun _ => first?_suffix_mask

/-- **Masked text is inert.** No quote stands in it and no two characters that open a comment; the
grammar reads all of it as plain characters, and masking it again changes nothing. -/
theorem mask_inert (code : Text) :
    '"' ∉ mask code ∧ '\'' ∉ mask code
      ∧ ¬ ['/', '/'] <:+: mask code ∧ ¬ ['/', '*'] <:+: mask code
      ∧ Segments (mask code) ((mask code).map .plain)
      ∧ mask (mask code) = mask code := by
  have hquote : ∀ c, [c] ∈ TokenRule.ordinary.openers → c ∉ mask code := by
    intro c hc hmem
    exact not_infix_mask code .ordinary hc ((List.singleton_infix_iff c (mask code)).mpr hmem)
  refine ⟨hquote '"' (by decide), hquote '\'' (by decide), ?_, ?_, segments_mask code, mask_mask code⟩
  · exact not_infix_mask code .lineComment (by decide)
  · exact not_infix_mask code .blockComment (by decide)

/-- Slashes that a literal and a comment keep apart stay apart. -/
example : mask "a /\"/\"/* */ /".toList = "a /         /".toList := by decide

end ChartLint.Lexing
