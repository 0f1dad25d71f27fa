import ChartLint.Text.Blank
import Mathlib.Data.List.Infix
import Mathlib.Data.List.TakeWhile

/-!
# Trimming

Trimming cuts a run of characters of one class off the end of a text, and it cuts off all of them:
what is left does not end in one (`not_of_getLast?_trimEndBy`). A part of a text is therefore a part
of the trimmed text as soon as it is trimmed itself (`isInfix_trimEndBy`).
-/

namespace ChartLint.Text

variable {cls : Char → Bool}

/-- What is cut off belongs to the class. -/
theorem exists_trimEndBy_append (cls : Char → Bool) (t : Text) :
    ∃ cut, trimEndBy cls t ++ cut = t ∧ ∀ c ∈ cut, cls c = true := by
  refine ⟨(t.reverse.takeWhile cls).reverse, ?_, fun c hc => ?_⟩
  · rw [trimEndBy, ← List.reverse_append, List.takeWhile_append_dropWhile, List.reverse_reverse]
  · exact List.mem_takeWhile_imp (List.mem_reverse.mp hc)

/-- What is left does not end in a character of the class. -/
theorem not_of_getLast?_trimEndBy {t : Text} {c : Char} (h : (trimEndBy cls t).getLast? = some c) :
    cls c = false := by
  rw [trimEndBy, List.getLast?_reverse] at h
  have hstop := List.head?_dropWhile_not cls t.reverse
  rw [h] at hstop
  simpa using hstop

/-- A run of the class at the end is cut off. -/
theorem trimEndBy_append_of_forall {run : Text} (h : ∀ c ∈ run, cls c = true) (t : Text) :
    trimEndBy cls (t ++ run) = trimEndBy cls t := by
  rw [trimEndBy, List.reverse_append, List.dropWhile_append_of_pos]
  · rfl
  · exact fun c hc => h c (List.mem_reverse.mp hc)

/-- In front of a character that stays everything stays. -/
theorem trimEndBy_append_of_ne_nil {t : Text} (h : trimEndBy cls t ≠ []) (front : Text) :
    trimEndBy cls (front ++ t) = front ++ trimEndBy cls t := by
  have hne : t.reverse.dropWhile cls ≠ [] := by
    simpa [trimEndBy] using h
  rw [trimEndBy, List.reverse_append, List.dropWhile_append, if_neg (by simpa using hne),
    List.reverse_append, List.reverse_reverse]
  rfl

/-- A text that does not end in a character of the class is trimmed. -/
theorem trimEndBy_of_getLast? {t : Text} (h : ∀ c, t.getLast? = some c → cls c = false) :
    trimEndBy cls t = t := by
  rcases List.eq_nil_or_concat t with rfl | ⟨front, c, rfl⟩
  · rfl
  · rw [List.concat_eq_append] at h ⊢
    have hc : cls c = false := h c List.getLast?_concat
    have htrimmed : trimEndBy cls [c] = [c] := by simp [trimEndBy, hc]
    rw [trimEndBy_append_of_ne_nil (by simp [htrimmed]), htrimmed]

/-- **A part of a text** stands in the trimmed text, once it is trimmed itself. -/
theorem isInfix_trimEndBy {part t : Text} (h : part <:+: t) :
    trimEndBy cls part <:+: trimEndBy cls t := by
  obtain ⟨front, back, rfl⟩ := h
  by_cases hback : trimEndBy cls back = []
  · -- nothing is left behind the part, so that it is trimmed where the text is
    obtain ⟨cut, hcut, hcls⟩ := exists_trimEndBy_append cls back
    rw [hback, List.nil_append] at hcut
    rw [← hcut, trimEndBy_append_of_forall hcls]
    by_cases hpart : trimEndBy cls part = []
    · rw [hpart]
      exact List.nil_infix
    · rw [trimEndBy_append_of_ne_nil hpart]
      exact (List.suffix_append front _).isInfix
  · obtain ⟨cut, hcut, -⟩ := exists_trimEndBy_append cls part
    rw [trimEndBy_append_of_ne_nil hback]
    refine ⟨front, cut ++ trimEndBy cls back, ?_⟩
    rw [← List.append_assoc, List.append_assoc front, hcut]

end ChartLint.Text
