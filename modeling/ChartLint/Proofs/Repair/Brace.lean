import ChartLint.Source.Brace
import Mathlib.Data.List.Basic

/-!
# Closing braces

The scan for a closing brace keeps a depth. Read over a front that it does not end in, it goes on
behind the front at some depth and forgets the rest (`closingFrom?_append`); so a balanced insertion
moves the closing brace and changes nothing else (`closing?_insert`), and two opening braces are
never closed by the same one (`closing?_nested`).
-/

namespace ChartLint.Source

/-- The offset, in the text behind an opening brace, of the brace that closes it. -/
def closing? (r : Text) : Option Nat :=
  closingFrom? 1 0 r

theorem closingFrom?_shift (depth : Int) (pos n : Nat) (t : Text) :
    closingFrom? depth (pos + n) t = (closingFrom? depth pos t).map (· + n) := by
  induction t generalizing depth pos with
  | nil => rfl
  | cons c t ih =>
    have hpos : pos + n + 1 = pos + 1 + n := by omega
    simp only [closingFrom?, hpos, ih]
    split
    · rfl
    · split
      · split <;> rfl
      · rfl

theorem closingFrom?_eq_map (depth : Int) (pos : Nat) (t : Text) :
    closingFrom? depth pos t = (closingFrom? depth 0 t).map (· + pos) := by
  have hshift := closingFrom?_shift depth 0 pos t
  rwa [Nat.zero_add] at hshift

/-- **The brace that closes an opening one**, or the end of the text. -/
theorem matchingBrace_append (g r : Text) :
    matchingBrace (g ++ '{' :: r) g.length
      = match closing? r with
        | some k => g.length + 1 + k
        | none => (g ++ '{' :: r).length := by
  have hscan : closingFrom? 0 g.length ('{' :: r) = (closing? r).map (· + (g.length + 1)) := by
    rw [closingFrom?, if_pos rfl]
    exact closingFrom?_eq_map 1 (g.length + 1) r
  rw [matchingBrace, List.drop_left, hscan]
  cases closing? r with
  | none => rfl
  | some k =>
    show k + (g.length + 1) = g.length + 1 + k
    omega

theorem closingFrom?_le {depth : Int} {pos k : Nat} {t : Text}
    (h : closingFrom? depth pos t = some k) : pos ≤ k := by
  rw [closingFrom?_eq_map] at h
  obtain ⟨j, -, rfl⟩ := Option.map_eq_some_iff.mp h
  omega

/-- Where the scan ends there is a closing brace. -/
theorem closingFrom?_eq_some {depth : Int} {pos k : Nat} {t : Text}
    (h : closingFrom? depth pos t = some k) :
    ∃ body rest, t = body ++ '}' :: rest ∧ pos + body.length = k := by
  induction t generalizing depth pos with
  | nil => cases h
  | cons c t ih =>
    have hlater : ∀ {depth' : Int}, closingFrom? depth' (pos + 1) t = some k →
        ∃ body rest, c :: t = body ++ '}' :: rest ∧ pos + body.length = k := by
      intro depth' h'
      obtain ⟨body, rest, rfl, hlength⟩ := ih h'
      refine ⟨c :: body, rest, rfl, ?_⟩
      rw [List.length_cons]
      omega
    rw [closingFrom?] at h
    split at h
    · exact hlater h
    · split at h
      · next hclose =>
        split at h
        · cases h
          exact ⟨[], t, by rw [hclose, List.nil_append], rfl⟩
        · exact hlater h
      · exact hlater h

theorem closing?_eq_some {r : Text} {k : Nat} (h : closing? r = some k) :
    ∃ body rest, r = body ++ '}' :: rest ∧ body.length = k := by
  obtain ⟨body, rest, hr, hlength⟩ := closingFrom?_eq_some h
  exact ⟨body, rest, hr, by omega⟩

/-- **A front** either ends the scan, whatever follows it, or passes a depth on to what follows. -/
theorem closingFrom?_append {depth : Int} (hdepth : 1 ≤ depth) (pos : Nat) (u : Text) :
    (∃ k, k < pos + u.length ∧ ∀ z, closingFrom? depth pos (u ++ z) = some k)
      ∨ ∃ depth', 1 ≤ depth'
        ∧ ∀ z, closingFrom? depth pos (u ++ z) = closingFrom? depth' (pos + u.length) z := by
  induction u generalizing depth pos with
  | nil => exact .inr ⟨depth, hdepth, fun z => rfl⟩
  | cons c u ih =>
    have hlength : pos + (c :: u).length = pos + 1 + u.length := by
      rw [List.length_cons]
      omega
    rw [hlength]
    simp only [List.cons_append, closingFrom?]
    by_cases hopen : c = '{'
    · simp only [hopen, if_true]
      exact ih (by omega) (pos + 1)
    · by_cases hclose : c = '}'
      · by_cases hone : depth = 1
        · refine .inl ⟨pos, by omega, fun z => ?_⟩
          simp [hclose, hone]
        · simp only [hclose, hone, if_false, if_true]
          exact ih (by omega) (pos + 1)
      · simp only [hopen, hclose, if_false]
        exact ih hdepth (pos + 1)

/-! ## Balanced text -/

/-- The text closes what it opens and nothing else: the scan passes it at the depth at which it
comes. -/
def Balanced (v : Text) : Prop :=
  ∀ depth : Int, 1 ≤ depth →
    ∀ pos z, closingFrom? depth pos (v ++ z) = closingFrom? depth (pos + v.length) z

theorem balanced_of_forall {v : Text} (hv : ∀ c ∈ v, c ≠ '{' ∧ c ≠ '}') : Balanced v := by
  intro depth hdepth pos z
  induction v generalizing pos with
  | nil => rfl
  | cons c v ih =>
    obtain ⟨hopen, hclose⟩ := hv c (by simp)
    rw [List.cons_append, closingFrom?, if_neg hopen, if_neg hclose,
      ih (fun d hd => hv d (by simp [hd])), List.length_cons]
    congr 1
    omega

theorem Balanced.append {u v : Text} (hu : Balanced u) (hv : Balanced v) : Balanced (u ++ v) := by
  intro depth hdepth pos z
  rw [List.append_assoc, hu depth hdepth, hv depth hdepth, List.length_append, Nat.add_assoc]

theorem Balanced.braced {v : Text} (hv : Balanced v) : Balanced ('{' :: (v ++ ['}'])) := by
  intro depth hdepth pos z
  have hne : depth + 1 ≠ 1 := by omega
  rw [List.cons_append, closingFrom?, if_pos rfl, List.append_assoc, hv (depth + 1) (by omega),
    List.singleton_append, closingFrom?, if_neg (by decide), if_pos rfl, if_neg hne]
  simp only [List.length_cons, List.length_append, List.length_nil, Int.add_sub_cancel]
  congr 1
  omega

/-- **A balanced insertion** moves the closing brace when it stands in front of it, and leaves it
where it is otherwise. -/
theorem closing?_insert {v : Text} (hv : Balanced v) (u z : Text) :
    (∃ k, k < u.length ∧ closing? (u ++ (v ++ z)) = some k ∧ closing? (u ++ z) = some k)
      ∨ ∃ found : Option Nat, closing? (u ++ (v ++ z)) = found.map (· + (u.length + v.length))
        ∧ closing? (u ++ z) = found.map (· + u.length) := by
  rcases closingFrom?_append (Int.le_refl 1) 0 u with ⟨k, hk, hscan⟩ | ⟨depth, hdepth, hscan⟩
  · exact .inl ⟨k, by omega, hscan _, hscan _⟩
  · refine .inr ⟨closingFrom? depth 0 z, ?_, ?_⟩
    · rw [closing?, hscan, hv depth hdepth, closingFrom?_eq_map, Nat.zero_add]
    · rw [closing?, hscan, closingFrom?_eq_map, Nat.zero_add]

/-! ## Nested braces -/

theorem closingFrom?_deeper {depth n : Int} (hdepth : 1 ≤ depth) (hn : 1 ≤ n) {pos j k : Nat}
    {t : Text} (hj : closingFrom? depth pos t = some j)
    (hk : closingFrom? (depth + n) pos t = some k) : j < k := by
  induction t generalizing depth pos with
  | nil => cases hj
  | cons c t ih =>
    simp only [closingFrom?] at hj hk
    split at hj
    · next hopen =>
      rw [if_pos hopen, Int.add_right_comm] at hk
      exact ih (by omega) hj hk
    · next hopen =>
      rw [if_neg hopen] at hk
      split at hj
      · next hclose =>
        rw [if_pos hclose, if_neg (by omega)] at hk
        split at hj
        · cases hj
          exact closingFrom?_le hk
        · next hone =>
          have hcomm : depth + n - 1 = depth - 1 + n := by omega
          rw [hcomm] at hk
          exact ih (by omega) hj hk
      · next hclose =>
        rw [if_neg hclose] at hk
        exact ih hdepth hj hk

/-- **No brace closes two:** an outer brace is closed in front of an inner one or behind the one
that closes the inner one. -/
theorem closing?_nested {u r : Text} {j k : Nat} (hk : closing? (u ++ '{' :: r) = some k)
    (hj : closing? r = some j) : k < u.length ∨ u.length + 1 + j < k := by
  rcases closingFrom?_append (Int.le_refl 1) 0 u with ⟨k', hk', hscan⟩ | ⟨depth, hdepth, hscan⟩
  · have hsame : k' = k := Option.some.inj ((hscan _).symm.trans hk)
    omega
  · refine .inr ?_
    rw [closing?, hscan, Nat.zero_add, closingFrom?, if_pos rfl, Int.add_comm] at hk
    have hj' : closingFrom? 1 (u.length + 1) r = some (u.length + 1 + j) := by
      have hmap := closingFrom?_eq_map 1 (u.length + 1) r
      rw [closing?] at hj
      rw [hmap, hj, Option.map_some, Nat.add_comm]
    exact closingFrom?_deeper (Int.le_refl 1) hdepth hj' hk

/-- An outer brace is not closed in what stands balanced behind an inner one. -/
theorem closing?_balanced {u v z : Text} {k : Nat} (hv : Balanced v)
    (hk : closing? (u ++ '{' :: (v ++ z)) = some k) : k < u.length ∨ u.length + 1 + v.length ≤ k := by
  rcases closingFrom?_append (Int.le_refl 1) 0 u with ⟨k', hk', hscan⟩ | ⟨depth, hdepth, hscan⟩
  · have hsame : k' = k := Option.some.inj ((hscan _).symm.trans hk)
    omega
  · rw [closing?, hscan, Nat.zero_add, closingFrom?, if_pos rfl, hv (depth + 1) (by omega)] at hk
    exact .inr (closingFrom?_le hk)

end ChartLint.Source
