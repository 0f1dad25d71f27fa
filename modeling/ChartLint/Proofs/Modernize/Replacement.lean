import ChartLint.Modernize
import ChartLint.Proofs.Lexing.Splice
import ChartLint.Proofs.Pattern.Spelling

/-!
# Replacement of constructs

What a replacement does to the mask of a script: the text between the matches stays, each match
gives way to the new text (`Replacement.replaced_apply`). A pattern that does not see the new text
gains no match by that (`Replaced.occurs_of_occurs`), one that does not see the old text loses none
(`Replaced.occurs_imp_occurs`), and the construct itself is gone (`Replaced.not_occurs`).
-/

namespace ChartLint.Modernize

open Pattern Lexing Text

/-! ## Replaced text -/

/-- The text `t'` is `t` with every match of the pattern, from the left, replaced by `new`. -/
inductive Replaced (p : Pattern) (new : Text) : Option Char → Text → Text → Prop where
  | done {x : Option Char} {t : Text} (none : ¬ p.Occurs x t) : Replaced p new x t t
  | next {x : Option Char} {g w r r' : Text} (before : ¬ p.Begins x g (w ++ r))
      (covers : p.Accepts (lastOr x g) w r)
      (others : Replaced p new (lastOr (lastOr x g) w) r r') :
      Replaced p new x (g ++ (w ++ r)) (g ++ (new ++ r'))

/-- **What makes a replacement safe:** the construct is not empty, the old and the new text start
alike and end alike, visibly, and the new text opens no comment and no literal. -/
structure Replacement.Fits (r : Replacement) : Prop where
  consumes : r.shape.Consumes
  inert : ∀ c ∈ r.new.toList, isInert c = true
  head : ∀ x w t, r.shape.Accepts x w t → ∃ c, w.head? = some c ∧ r.new.toList.head? = some c
    ∧ isVisible c = true ∧ isNeutral c = true
  last : ∀ x w t, r.shape.Accepts x w t → ∃ c, w.getLast? = some c ∧ r.new.toList.getLast? = some c
    ∧ isVisible c = true

/-- A chosen match covers the word that it was found for. -/
theorem bounds_of_chosen {p : Pattern} {x : Option Char} {pos : Nat} {pre g w r : Text} {m : Match}
    (hpre : pre.length = pos) (chosen : p.matchAt? ⟨pos + g.length, x, w ++ r⟩ = some m)
    (stop : m.stop = pos + g.length + w.length) :
    (pre ++ g).length = m.start ∧ (pre ++ g).length + w.length = m.stop := by
  obtain ⟨-, -, -, -, hstart, -⟩ := accepts_of_matchAt? chosen
  rw [hstart, stop, ← hpre, List.length_append]
  exact ⟨rfl, rfl⟩

/-- The matches of a search are replaced in the script as they are in its mask. -/
theorem replaced_of_cuts {rep : Replacement} (hfits : rep.Fits) {x : Option Char} {pos : Nat}
    {t : Text} {ms : List Match} (h : Cuts rep.shape x pos t ms) :
    ∃ t', Replaced rep.shape rep.new.toList x t t' ∧ ∀ code pre, pre.length = pos →
      mask code = pre ++ t → mask (replaceMatches rep.new.toList ms code) = pre ++ t' := by
  induction h with
  | @done x pos t none => exact ⟨t, .done none, fun code pre _ hmask => hmask⟩
  | @next x pos g w r m ms before covers chosen stop others ih =>
    obtain ⟨r', hreplaced, hmask'⟩ := ih
    refine ⟨g ++ (rep.new.toList ++ r'), .next before covers hreplaced, ?_⟩
    intro code pre hpre hmask
    obtain ⟨c, hwhead, hnewhead, hvisible, hneutral⟩ := hfits.head _ _ _ covers
    obtain ⟨d, hwlast, -, hvisible'⟩ := hfits.last _ _ _ covers
    have hlen : (pre ++ g ++ w).length = pos + g.length + w.length := by
      simp [hpre, Nat.add_assoc]
    have hrest : mask (replaceMatches rep.new.toList ms code) = (pre ++ g) ++ w ++ r' :=
      hmask' code (pre ++ g ++ w) hlen (by rw [hmask]; simp)
    have hsplice := mask_splice hrest hwhead hvisible hneutral hwlast hvisible' hnewhead hneutral
      hfits.inert
    have hbounds := bounds_of_chosen hpre chosen stop
    rw [hbounds.2, hbounds.1] at hsplice
    rw [replaceMatches, List.foldr_cons]
    exact hsplice.trans (by simp)

theorem apply_code (rep : Replacement) (code : Text) :
    (rep.apply code).code = replaceMatches rep.new.toList (rep.shape.findAll (mask code)) code := by
  unfold Replacement.apply
  split
  · next h => rw [h]; rfl
  · rfl

/-- **A replacement** replaces the construct in the mask. -/
theorem Replacement.replaced_apply {rep : Replacement} (hfits : rep.Fits) (code : Text) :
    Replaced rep.shape rep.new.toList none (mask code) (mask (rep.apply code).code) := by
  obtain ⟨t', hreplaced, hmask⟩ := replaced_of_cuts hfits (cuts_findAll hfits.consumes (mask code))
  have happly := hmask code [] rfl rfl
  rw [List.nil_append] at happly
  rw [apply_code, happly]
  exact hreplaced

/-- A construct that does not occur is not replaced. -/
theorem Replacement.apply_of_not_occurs {rep : Replacement} (hfits : rep.Fits) {code : Text}
    (h : ¬ rep.shape.Occurs none (mask code)) : rep.apply code = ⟨code, []⟩ := by
  have hnil := (cuts_findAll hfits.consumes (mask code)).eq_nil h
  rw [Replacement.apply, hnil]

/-! ## What others see of a replacement -/

section Seen

variable {rep : Replacement} (hfits : rep.Fits) {q : Pattern} (hq : q.isLocal = true)

include hfits in
/-- The old and the new text have their first letter in common. -/
theorem Replacement.Fits.exists_head {x : Option Char} {w r : Text} (h : rep.shape.Accepts x w r) :
    ∃ c w' new', w = c :: w' ∧ rep.new.toList = c :: new' := by
  obtain ⟨c, hw, hnew, -⟩ := hfits.head _ _ _ h
  obtain ⟨w', rfl⟩ := List.head?_eq_some_iff.mp hw
  obtain ⟨new', hnew'⟩ := List.head?_eq_some_iff.mp hnew
  exact ⟨c, w', new', rfl, hnew'⟩

include hfits in
theorem Replacement.Fits.sameHead {x : Option Char} {w r : Text} (h : rep.shape.Accepts x w r)
    (b b' : Text) : SameHead (w ++ b) (rep.new.toList ++ b') := by
  obtain ⟨c, w', new', rfl, hnew⟩ := hfits.exists_head h
  rw [hnew]
  rfl

include hfits in
theorem Replacement.Fits.lastOr_eq {x : Option Char} {w r : Text} (h : rep.shape.Accepts x w r)
    (y : Option Char) : lastOr y w = lastOr y rep.new.toList := by
  obtain ⟨c, hw, hnew, -⟩ := hfits.last _ _ _ h
  rw [lastOr_of_getLast? hw, lastOr_of_getLast? hnew]

include hfits hq in
/-- **No match is gained** by a pattern that does not see the new text. -/
theorem Replaced.occurs_of_occurs (hentry : q.NoEntry rep.new.toList)
    (hstart : q.NoStart rep.new.toList) {x : Option Char} {t t' : Text}
    (h : Replaced rep.shape rep.new.toList x t t') (hocc : q.Occurs x t') : q.Occurs x t := by
  induction h with
  | done none => exact hocc
  | @next x g w r r' before covers others ih =>
    rw [occurs_append, occurs_append] at hocc ⊢
    rcases hocc with hbegins | hbegins | hocc
    · refine .inl (hbegins.of_noEntry hq hentry ?_)
      exact (hfits.sameHead covers r r').symm
    · exact absurd hbegins (hstart _ _)
    · rw [← hfits.lastOr_eq covers] at hocc
      exact .inr (.inr (ih hocc))

include hfits hq in
/-- **No match is lost** by a pattern that does not see the old text. -/
theorem Replaced.occurs_imp_occurs
    (hentry : ∀ x w t, rep.shape.Accepts x w t → q.NoEntry w)
    (hstart : ∀ x w t, rep.shape.Accepts x w t → q.NoStart w) {x : Option Char} {t t' : Text}
    (h : Replaced rep.shape rep.new.toList x t t') (hocc : q.Occurs x t) : q.Occurs x t' := by
  induction h with
  | done none => exact hocc
  | @next x g w r r' before covers others ih =>
    rw [occurs_append, occurs_append] at hocc ⊢
    rcases hocc with hbegins | hbegins | hocc
    · exact .inl (hbegins.of_noEntry hq (hentry _ _ _ covers) (hfits.sameHead covers r r'))
    · exact absurd hbegins (hstart _ _ _ covers _ _)
    · rw [← hfits.lastOr_eq covers]
      exact .inr (.inr (ih hocc))

include hfits hq in
/-- **The construct is gone:** a pattern that starts where the construct starts, and that does not
see the new text, has no match left. -/
theorem Replaced.not_occurs (hsame : ∀ x t, rep.shape.StartsAt x t ↔ q.StartsAt x t)
    (hentry : q.NoEntry rep.new.toList) (hstart : q.NoStart rep.new.toList) {x : Option Char}
    {t t' : Text} (h : Replaced rep.shape rep.new.toList x t t') : ¬ q.Occurs x t' := by
  induction h with
  | done none => rwa [← occurs_congr hsame]
  | @next x g w r r' before covers others ih =>
    rw [begins_congr hsame] at before
    rw [occurs_append, occurs_append]
    rintro (hbegins | hbegins | hocc)
    · exact before (hbegins.of_noEntry hq hentry (hfits.sameHead covers r r').symm)
    · exact hstart _ _ hbegins
    · rw [← hfits.lastOr_eq covers] at hocc
      exact ih hocc

end Seen

end ChartLint.Modernize
