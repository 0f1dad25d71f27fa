import Mathlib.Data.Finset.Lattice.Fold
import Mathlib.Data.List.Induction
import Mathlib.Order.Lattice.Nat

/-!
# Counting pairs with forgiveness

A list has entries that open and entries that close. Read from the left with a counter, a closer that
finds nothing open is *stray*: it is forgiven, and the counter stays at zero. How many strays there
are, where they stand and what is left open can be told from the plain difference of openers and
closers, the *standing*, without any counter: the list has as many strays as its standing ever falls
below zero (`deficit`), each at the entry that makes a new low (`strays_eq`), and what is left open is
the standing at the end with that deficit made good (`openCount_eq`).
-/

namespace ChartLint.Rule.Balance

/-- What opens and what closes among the entries of a list. -/
structure Pairing (α : Type) where
  opens : α → Bool
  closes : α → Bool
  apart : ∀ a, opens a = true → closes a = false

namespace Pairing

variable {α : Type} (p : Pairing α)

/-! ## The standing -/

/-- How many entries open, less how many close. -/
def standing (xs : List α) : Int :=
  xs.countP p.opens - xs.countP p.closes

/-- How far the standing falls below zero, at the lowest of all fronts of the list. -/
def deficit (xs : List α) : Nat :=
  (Finset.range (xs.length + 1)).sup fun n => (-p.standing (xs.take n)).toNat

/-- The length of the first front whose standing is `-j`. -/
def firstAt (xs : List α) (j : Nat) : Nat :=
  (List.range (xs.length + 1)).findIdx fun n => p.standing (xs.take n) == -(j : Int)

/-- What the list leaves open once its deficit is made good. -/
def surplus (xs : List α) : Nat :=
  (p.standing xs + p.deficit xs).toNat

/-- As many entries open as close, and in no front do more close than open. -/
def Balances (xs : List α) : Prop :=
  p.standing xs = 0 ∧ ∀ n, 0 ≤ p.standing (xs.take n)

@[simp]
theorem standing_nil : p.standing [] = 0 :=
  rfl

/-- What one more entry does to the standing. -/
theorem standing_concat (xs : List α) (a : α) :
    (p.opens a = true ∧ p.closes a = false ∧ p.standing (xs ++ [a]) = p.standing xs + 1)
      ∨ (p.opens a = false ∧ p.closes a = true ∧ p.standing (xs ++ [a]) = p.standing xs - 1)
      ∨ (p.opens a = false ∧ p.closes a = false ∧ p.standing (xs ++ [a]) = p.standing xs) := by
  have hcount : p.standing (xs ++ [a]) = p.standing xs + (if p.opens a then 1 else 0)
      - (if p.closes a then 1 else 0) := by
    unfold standing
    rw [List.countP_append, List.countP_append, List.countP_singleton, List.countP_singleton]
    cases p.opens a <;> cases p.closes a <;> simp <;> omega
  cases hopen : p.opens a with
  | true =>
    have hclose := p.apart a hopen
    exact .inl ⟨rfl, hclose, by simpa [hopen, hclose] using hcount⟩
  | false =>
    cases hclose : p.closes a with
    | true => exact .inr (.inl ⟨rfl, rfl, by simpa [hopen, hclose] using hcount⟩)
    | false => exact .inr (.inr ⟨rfl, rfl, by simpa [hopen, hclose] using hcount⟩)

theorem deficit_concat (xs : List α) (a : α) :
    p.deficit (xs ++ [a]) = max (-p.standing (xs ++ [a])).toNat (p.deficit xs) := by
  have hfront : (Finset.range (xs.length + 1)).sup
      (fun n => (-p.standing ((xs ++ [a]).take n)).toNat) = p.deficit xs := by
    refine Finset.sup_congr rfl fun n hn => ?_
    rw [List.take_append_of_le_length (by simpa [Nat.lt_succ_iff] using hn)]
  rw [deficit, List.length_append, List.length_singleton, Finset.range_add_one, Finset.sup_insert,
    hfront, List.take_of_length_le (by simp)]

/-- No front stands below the deficit. -/
theorem neg_deficit_le (xs : List α) (n : Nat) : -(p.deficit xs : Int) ≤ p.standing (xs.take n) := by
  have hle : ∀ n ∈ Finset.range (xs.length + 1),
      (-p.standing (xs.take n)).toNat ≤ p.deficit xs :=
    fun n hn => Finset.le_sup (f := fun n => (-p.standing (xs.take n)).toNat) hn
  by_cases hn : n ≤ xs.length
  · have hlow := hle n (Finset.mem_range.mpr (by omega))
    omega
  · have hlow := hle xs.length (Finset.mem_range.mpr (by omega))
    rw [List.take_length] at hlow
    rw [List.take_of_length_le (by omega)]
    omega

theorem neg_deficit_le_standing (xs : List α) : -(p.deficit xs : Int) ≤ p.standing xs := by
  have hlow := p.neg_deficit_le xs xs.length
  rwa [List.take_length] at hlow

/-- **Every low is reached:** the standing falls by one at a time. -/
theorem exists_standing_eq (xs : List α) {j : Nat} (hj : j ≤ p.deficit xs) :
    ∃ n ≤ xs.length, p.standing (xs.take n) = -(j : Int) := by
  induction xs using List.reverseRecOn with
  | nil =>
    have hzero : j = 0 := by simpa [deficit] using hj
    exact ⟨0, Nat.le_refl 0, by simp [hzero]⟩
  | append_singleton xs a ih =>
    by_cases hold : j ≤ p.deficit xs
    · obtain ⟨n, hn, hstanding⟩ := ih hold
      refine ⟨n, by simp; omega, ?_⟩
      rwa [List.take_append_of_le_length hn]
    · -- the last entry closes, and makes the new low
      refine ⟨xs.length + 1, by simp, ?_⟩
      have hlow := p.neg_deficit_le_standing xs
      rw [deficit_concat] at hj
      rw [List.take_of_length_le (by simp)]
      rcases p.standing_concat xs a with ⟨-, -, hstep⟩ | ⟨-, -, hstep⟩ | ⟨-, -, hstep⟩ <;> omega

/-! ## First fronts -/

theorem firstAt_eq {xs : List α} {j n : Nat} (hn : n ≤ xs.length)
    (hstanding : p.standing (xs.take n) = -(j : Int))
    (hfirst : ∀ m < n, p.standing (xs.take m) ≠ -(j : Int)) : p.firstAt xs j = n := by
  refine (List.findIdx_eq (by simpa using Nat.lt_succ_of_le hn)).mpr ⟨by simpa using hstanding, ?_⟩
  intro m hm
  simpa using hfirst m hm

/-- The empty front stands at zero. -/
theorem firstAt_pos (xs : List α) (j : Nat) : 0 < p.firstAt xs (j + 1) := by
  rw [firstAt, List.range_succ_eq_map, List.findIdx_cons, List.take_zero, standing_nil]
  have hne : ((0 : Int) == -((j + 1 : Nat) : Int)) = false := by
    rw [beq_eq_false_iff_ne]
    omega
  rw [hne, cond_false]
  exact Nat.succ_pos _

/-- A front that is reached is the first one in every longer list. -/
theorem firstAt_concat {xs : List α} {j : Nat} (hj : j ≤ p.deficit xs) (a : α) :
    p.firstAt (xs ++ [a]) j = p.firstAt xs j := by
  obtain ⟨n, hn, hstanding⟩ := p.exists_standing_eq xs hj
  have hfound := List.findIdx_lt_length_of_exists (p := fun n => p.standing (xs.take n) == -(j : Int))
    ⟨n, List.mem_range.mpr (Nat.lt_succ_of_le hn), by simpa using hstanding⟩
  have hat : p.standing (xs.take (p.firstAt xs j)) = -(j : Int) := by
    have hbeq := List.findIdx_getElem (w := hfound)
    rwa [List.getElem_range, beq_iff_eq] at hbeq
  have hbound : p.firstAt xs j < xs.length + 1 := by
    rwa [List.length_range] at hfound
  refine p.firstAt_eq (by simp; omega) (by rwa [List.take_append_of_le_length (by omega)]) ?_
  intro m hm
  rw [List.take_append_of_le_length (by omega)]
  simpa using List.not_of_lt_findIdx hm

/-! ## The counter -/

/-- The counter behind an entry. -/
def countAfter (n : Nat) (a : α) : Nat :=
  if p.opens a then n + 1 else if p.closes a then n - 1 else n

/-- The counter at the end of a list. -/
def openCount (xs : List α) : Nat :=
  xs.foldl p.countAfter 0

/-- The offsets of the entries that close what is not open. -/
def strays (xs : List α) : List Nat :=
  (List.range xs.length).filter fun n =>
    xs[n]?.any p.closes && p.openCount (xs.take n) == 0

theorem openCount_concat (xs : List α) (a : α) :
    p.openCount (xs ++ [a]) = p.countAfter (p.openCount xs) a := by
  rw [openCount, List.foldl_append]
  rfl

theorem strays_concat (xs : List α) (a : α) :
    p.strays (xs ++ [a])
      = p.strays xs ++ (if p.closes a && p.openCount xs == 0 then [xs.length] else []) := by
  have hfront : (List.range xs.length).filter
      (fun n => (xs ++ [a])[n]?.any p.closes && p.openCount ((xs ++ [a]).take n) == 0)
        = p.strays xs := by
    refine List.filter_congr fun n hn => ?_
    have hlt : n < xs.length := List.mem_range.mp hn
    rw [List.getElem?_append_left hlt, List.take_append_of_le_length hlt.le]
  rw [strays, List.length_append, List.length_singleton, List.range_succ, List.filter_append, hfront]
  simp [List.filter_singleton]

/-- **What the counter shows** is the standing with the deficit made good. -/
theorem openCount_eq (xs : List α) : (p.openCount xs : Int) = p.standing xs + p.deficit xs := by
  induction xs using List.reverseRecOn with
  | nil => simp [openCount, deficit]
  | append_singleton xs a ih =>
    have hlow := p.neg_deficit_le_standing xs
    rw [openCount_concat, deficit_concat, countAfter]
    rcases p.standing_concat xs a with
      ⟨hopen, hclose, hstep⟩ | ⟨hopen, hclose, hstep⟩ | ⟨hopen, hclose, hstep⟩
    all_goals
      simp only [hopen, hclose, if_true, Bool.false_eq_true, if_false]
      omega

theorem openCount_eq_surplus (xs : List α) : p.openCount xs = p.surplus xs := by
  rw [surplus, ← openCount_eq, Int.toNat_natCast]

/-- **The strays** are as many as the deficit, and each makes a new low. -/
theorem strays_eq (xs : List α) :
    p.strays xs = (List.range (p.deficit xs)).map fun j => p.firstAt xs (j + 1) - 1 := by
  induction xs using List.reverseRecOn with
  | nil => simp [strays, deficit]
  | append_singleton xs a ih =>
    have hcount := p.openCount_eq xs
    have hkept : (List.range (p.deficit xs)).map (fun j => p.firstAt (xs ++ [a]) (j + 1) - 1)
        = p.strays xs := by
      rw [ih]
      refine List.map_congr_left fun j hj => ?_
      rw [p.firstAt_concat (List.mem_range.mp hj)]
    -- the deficit grows with a stray, and only with one
    have hdeficit : p.deficit (xs ++ [a])
        = p.deficit xs + (if p.closes a && p.openCount xs == 0 then 1 else 0) := by
      rw [deficit_concat]
      rcases p.standing_concat xs a with
        ⟨-, hclose, hstep⟩ | ⟨-, hclose, hstep⟩ | ⟨-, hclose, hstep⟩
      · simp only [hclose, Bool.false_and, Bool.false_eq_true, if_false]
        omega
      · simp only [hclose, Bool.true_and, beq_iff_eq]
        split <;> omega
      · simp only [hclose, Bool.false_and, Bool.false_eq_true, if_false]
        omega
    rw [strays_concat, hdeficit]
    split
    · next hstray =>
      have hlow : p.standing (xs ++ [a]) = -((p.deficit xs + 1 : Nat) : Int) := by
        rw [Bool.and_eq_true, beq_iff_eq] at hstray
        rcases p.standing_concat xs a with ⟨-, hclose, -⟩ | ⟨-, -, hstep⟩ | ⟨-, hclose, -⟩
        · simp [hclose] at hstray
        · omega
        · simp [hclose] at hstray
      have hfirst : p.firstAt (xs ++ [a]) (p.deficit xs + 1) = xs.length + 1 := by
        refine p.firstAt_eq (by simp) ?_ fun m hm => ?_
        · rw [List.take_of_length_le (by simp)]
          exact hlow
        · rw [List.take_append_of_le_length (by omega)]
          have hfloor := p.neg_deficit_le xs m
          omega
      rw [List.range_succ, List.map_append, hkept, List.map_singleton, hfirst, Nat.add_sub_cancel]
    · rw [Nat.add_zero, hkept, List.append_nil]

/-- **Nothing is wrong** exactly with a list that balances. -/
theorem balances_iff (xs : List α) : p.Balances xs ↔ p.deficit xs = 0 ∧ p.surplus xs = 0 := by
  have hlow := p.neg_deficit_le_standing xs
  constructor
  · rintro ⟨hend, hfronts⟩
    have hzero : p.deficit xs = 0 := by
      obtain ⟨n, -, hn⟩ := p.exists_standing_eq xs (Nat.le_refl _)
      have hfront := hfronts n
      omega
    exact ⟨hzero, by rw [surplus, hend, hzero]; rfl⟩
  · rintro ⟨hzero, hsurplus⟩
    refine ⟨?_, fun n => ?_⟩
    · rw [surplus] at hsurplus
      omega
    · have hfloor := p.neg_deficit_le xs n
      omega

end Pairing

end ChartLint.Rule.Balance
