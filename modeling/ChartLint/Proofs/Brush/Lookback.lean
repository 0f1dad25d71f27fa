import ChartLint.Rule.Brush
import Mathlib.Data.List.Basic

/-!
# Whose attribute counts

The attribute of a property is looked for on its line and upwards, to the line that ends the member
above. That line is the one in question: it is asked for the attribute before it ends the search, so an
attribute that stands on it counts, although it belongs to the member above. `isIgnored_iff` splits what
counts into the attributes of the property's own block (`Owned`) and those that are borrowed from the line
that ends the member above (`Borrowed`), and the two exclude each other.
-/

namespace ChartLint.Rule.Brush

open Pattern Source

/-- Whether the line with a number, counted from one, has the attribute. -/
def carries (ls : List Text) (k : Nat) : Bool :=
  (ls[k - 1]?).any xmlIgnore.occursIn

/-- Whether the line with a number, counted from one, ends a member. -/
def endsMember (ls : List Text) (k : Nat) : Bool :=
  (ls[k - 1]?).any memberEnd.occursIn

/-- A line that may be asked for the attribute of the property on another line. -/
def InReach (line k : Nat) : Prop :=
  max 1 (line - lookback) ≤ k ∧ k ≤ line

/-- The attribute stands in the property's own block: no line from it on, in front of the property's line,
ends a member. -/
def Owned (ls : List Text) (line : Nat) : Prop :=
  ∃ k ≤ line, InReach line k ∧ carries ls k = true ∧ ∀ j < line, k ≤ j → endsMember ls j = false

/-- The attribute nearest to the property stands on the line that ends the member above. -/
def Borrowed (ls : List Text) (line : Nat) : Prop :=
  ∃ k < line, InReach line k ∧ carries ls k = true ∧ endsMember ls k = true
    ∧ (∀ j < line, k < j → endsMember ls j = false) ∧ ∀ j ≤ line, k < j → carries ls j = false

instance (line k : Nat) : Decidable (InReach line k) :=
  inferInstanceAs (Decidable (_ ∧ _))

instance (ls : List Text) (line : Nat) : Decidable (Owned ls line) :=
  inferInstanceAs (Decidable (∃ k ≤ line, _))

instance (ls : List Text) (line : Nat) : Decidable (Borrowed ls line) :=
  inferInstanceAs (Decidable (∃ k < line, _))

/-- **The search upwards** finds a line with the attribute that no line ends the search in front of. -/
theorem ignoredAbove_iff {ls : List Text} :
    ignoredAbove ls = true ↔ ∃ n : Nat, (ls[n]?).any xmlIgnore.occursIn = true
      ∧ ∀ m < n, (ls[m]?).any memberEnd.occursIn = false := by
  induction ls with
  | nil => simp [ignoredAbove]
  | cons l ls ih =>
    rw [ignoredAbove, Bool.or_eq_true, Bool.and_eq_true, Bool.not_eq_true', ih]
    constructor
    · rintro (hmark | ⟨hgo, n, hmark, hfree⟩)
      · exact ⟨0, hmark, by simp⟩
      · refine ⟨n + 1, hmark, fun m hm => ?_⟩
        cases m with
        | zero => exact hgo
        | succ m => exact hfree m (by omega)
    · rintro ⟨n, hmark, hfree⟩
      cases n with
      | zero => exact .inl hmark
      | succ n =>
        exact .inr ⟨hfree 0 (by omega), n, hmark, fun m hm => hfree (m + 1) (by omega)⟩

/-- The lines above a line, the nearest first, by their numbers. -/
theorem getElem?_linesAbove {ls : List Text} {line : Nat} (hline : line ≤ ls.length) (depth n : Nat) :
    ((ls.take (line - 1)).reverse.take depth)[n]?
      = if n < depth ∧ n + 1 < line then ls[line - 1 - n - 1]? else none := by
  have hlength : (ls.take (line - 1)).length = line - 1 := List.length_take_of_le (by omega)
  rw [List.getElem?_take, ite_and]
  refine if_congr Iff.rfl ?_ rfl
  by_cases hn : n + 1 < line
  · have hplace : line - 1 - 1 - n = line - 1 - n - 1 := by omega
    rw [if_pos hn, List.getElem?_reverse (by omega), hlength, List.getElem?_take, if_pos (by omega),
      hplace]
  · rw [if_neg hn, List.getElem?_eq_none]
    rw [List.length_reverse, hlength]
    omega

/-- **What counts:** an attribute in reach that no line behind it, in front of the property's line, cuts
off. -/
theorem isIgnored_iff_inReach {ls : List Text} {line : Nat} (hpos : 1 ≤ line)
    (hline : line ≤ ls.length) :
    isIgnored? ls line = .ok true ↔ ∃ k, InReach line k ∧ carries ls k = true
      ∧ ∀ j < line, k < j → endsMember ls j = false := by
  have hthere : line - 1 < ls.length := by omega
  have hown : carries ls line = xmlIgnore.occursIn ls[line - 1] := by
    rw [carries, List.getElem?_eq_getElem hthere]
    rfl
  have hread : isIgnored? ls line
      = .ok (carries ls line || ignoredAbove ((ls.take (line - 1)).reverse.take lookback)) := by
    rw [isIgnored?, lineAt_eq (List.getElem?_eq_getElem hthere), linesAbove_eq hline, hown]
    rfl
  rw [hread, Except.ok.injEq, Bool.or_eq_true, ignoredAbove_iff]
  -- the `n`-th line of the search is the one `n + 1` above the property's
  constructor
  · rintro (hmark | ⟨n, hmark, hfree⟩)
    · exact ⟨line, ⟨by omega, Nat.le_refl _⟩, hmark, fun j hj hk => by omega⟩
    · rw [getElem?_linesAbove hline] at hmark
      split at hmark
      · next hn =>
        refine ⟨line - 1 - n, ⟨by omega, by omega⟩, hmark, fun j hj hk => ?_⟩
        have hj' := hfree (line - 1 - j) (by omega)
        have hplace : line - 1 - (line - 1 - j) - 1 = j - 1 := by omega
        rw [getElem?_linesAbove hline, if_pos (by omega), hplace] at hj'
        exact hj'
      · cases hmark
  · rintro ⟨k, ⟨hlow, hhigh⟩, hmark, hfree⟩
    rcases Nat.eq_or_lt_of_le hhigh with rfl | hlt
    · exact .inl hmark
    · refine .inr ⟨line - 1 - k, ?_, fun m hm => ?_⟩
      · have hplace : line - 1 - (line - 1 - k) - 1 = k - 1 := by omega
        rw [getElem?_linesAbove hline, if_pos (by omega), hplace]
        exact hmark
      · rw [getElem?_linesAbove hline, if_pos (by omega)]
        exact hfree (line - 1 - m) (by omega) (by omega)

/-- **Whose attribute counts:** a property has the attribute if one stands in its own block, or if the
nearest one stands on the line that ends the member above; never both. -/
theorem isIgnored_iff_owned_or_borrowed {ls : List Text} {line : Nat} (hpos : 1 ≤ line)
    (hline : line ≤ ls.length) :
    (isIgnored? ls line = .ok true ↔ Owned ls line ∨ Borrowed ls line)
      ∧ ¬ (Owned ls line ∧ Borrowed ls line) := by
  rw [isIgnored_iff_inReach hpos hline]
  constructor
  · constructor
    · rintro ⟨k, hreach, hmark, hfree⟩
      by_cases howned : Owned ls line
      · exact .inl howned
      · -- the attribute is not the property's own, so its line ends a member
        have hends : k < line ∧ endsMember ls k = true := by
          by_contra hno
          refine howned ⟨k, hreach.2, hreach, hmark, fun j hj hk => ?_⟩
          rcases Nat.eq_or_lt_of_le hk with rfl | hlt
          · simpa [hj] using hno
          · exact hfree j hj hlt
        refine .inr ⟨k, hends.1, hreach, hmark, hends.2, hfree, fun j hj hk => ?_⟩
        by_contra hcarries
        have hreachj : InReach line j := ⟨by have hlow := hreach.1; omega, hj⟩
        exact howned ⟨j, hj, hreachj, by simpa using hcarries,
          fun i hi hji => hfree i hi (by omega)⟩
    · rintro (⟨k, -, hreach, hmark, hfree⟩ | ⟨k, -, hreach, hmark, -, hfree, -⟩)
      · exact ⟨k, hreach, hmark, fun j hj hk => hfree j hj (Nat.le_of_lt hk)⟩
      · exact ⟨k, hreach, hmark, hfree⟩
  · -- an own attribute stands below the line that ends the member above, a borrowed one on it
    rintro ⟨⟨k, hk, -, hmark, hfree⟩, k', hk', -, -, hends, -, hbare⟩
    rcases Nat.lt_or_ge k' k with hlt | hle
    · rw [hbare k hk hlt] at hmark
      cases hmark
    · rw [hfree k' hk' hle] at hends
      cases hends

/-- A property below a whole member that has the attribute on its line. -/
def borrowing : List Text :=
  ["[XmlIgnore] public int Y { get; set; }", "public Brush X { get; set; }"].map String.toList

/-- The property borrows the attribute of the member above. -/
theorem isIgnored_iff_owned_or_borrowed_borrowing :
    (1 ≤ 2 ∧ 2 ≤ borrowing.length)
      ∧ (isIgnored? borrowing 2 = .ok true ↔ Owned borrowing 2 ∨ Borrowed borrowing 2)
      ∧ Borrowed borrowing 2 :=
  ⟨by decide, (@isIgnored_iff_owned_or_borrowed borrowing 2 (by decide) (by decide)).1,
    by decide +kernel⟩

/-- **The attribute of a previous member counts:** no line with the attribute stands in the property's
own block, and the property is taken to have it. -/
theorem isIgnored_of_previous_member :
    isIgnored? borrowing 2 = .ok true ∧ ¬ Owned borrowing 2 := by
  decide +kernel

end ChartLint.Rule.Brush
