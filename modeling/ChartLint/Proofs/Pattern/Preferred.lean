import ChartLint.Proofs.Pattern.Accepts

/-!
# The preferred way

A search takes the first of the ways in which a pattern matches. For the patterns that rules are
built from, the first way of a sequence is the first way of its first part followed by the first way
of the rest (`Prefers.append`), and the first way of a run is the longest one (`prefers_many`).
-/

namespace ChartLint.Pattern

open Text

/-- **`p.Prefers c w r kept`:** from the place `c` the pattern prefers to cover `w`, in front of
`r`, and keeps `kept`. -/
def Prefers (p : Pattern) (c : Cursor) (w r : Text) (kept : List (Slot × Span)) : Prop :=
  c.rest = w ++ r ∧ (p.ends c).head? = some ⟨⟨c.pos + w.length, lastOr c.before w, r⟩, kept⟩

/-- What a pattern prefers is what a search takes at that place. -/
theorem Prefers.matchAt? {p : Pattern} {pos : Nat} {x : Option Char} {t w r : Text}
    {kept : List (Slot × Span)} (h : p.Prefers ⟨pos, x, t⟩ w r kept) :
    p.matchAt? ⟨pos, x, t⟩ = some ⟨pos, pos + w.length, kept⟩ := by
  rw [Pattern.matchAt?, h.2]
  rfl

/-- **Sequences** prefer the first way of the first part, if the rest can follow it. -/
theorem Prefers.append {p q : Pattern} {pos : Nat} {x : Option Char} {t w₁ w₂ r₁ r : Text}
    {kept₁ kept₂ : List (Slot × Span)} (h₁ : p.Prefers ⟨pos, x, t⟩ w₁ r₁ kept₁)
    (h₂ : q.Prefers ⟨pos + w₁.length, lastOr x w₁, r₁⟩ w₂ r kept₂) :
    (p ++ q).Prefers ⟨pos, x, t⟩ (w₁ ++ w₂) r (kept₁ ++ kept₂) := by
  obtain ⟨hrest₁, hhead₁⟩ := h₁
  obtain ⟨hrest₂, hhead₂⟩ := h₂
  simp only at hrest₁ hrest₂
  -- the first way of the sequence goes on from the first way of its first part
  obtain ⟨others₁, hends₁⟩ := List.head?_eq_some_iff.mp hhead₁
  obtain ⟨others₂, hends₂⟩ := List.head?_eq_some_iff.mp hhead₂
  refine ⟨by simp only; rw [hrest₁, hrest₂, List.append_assoc], ?_⟩
  rw [ends_followedBy, ends, hends₁, List.flatMap_cons, hends₂, List.map_cons, List.cons_append,
    List.head?_cons, Ending.andThen]
  simp [Nat.add_assoc]

/-- A character has one way to match. -/
theorem prefers_one {cls : Char → Bool} {c : Char} (hc : cls c = true) (pos : Nat)
    (x : Option Char) (r : Text) : (Pattern.one cls).Prefers ⟨pos, x, c :: r⟩ [c] r [] := by
  refine ⟨rfl, ?_⟩
  simp [ends, hc, Ending.plain]

/-- So has a literal. -/
theorem prefers_literal (t : Text) (pos : Nat) (x : Option Char) (r : Text) :
    (literal t).Prefers ⟨pos, x, t ++ r⟩ t r [] := by
  induction t generalizing pos x with
  | nil => exact ⟨rfl, rfl⟩
  | cons c t ih =>
    cases t with
    | nil => exact prefers_one (by simp) pos x r
    | cons d t =>
      have hc : (Pattern.one (· == c)).Prefers ⟨pos, x, c :: (d :: t ++ r)⟩ [c] (d :: t ++ r) [] :=
        prefers_one (by simp) pos x (d :: t ++ r)
      exact hc.append (ih (pos + 1) (some c))

/-- The edge of a word covers nothing and has no second way. -/
theorem prefers_edge (pos : Nat) {x : Option Char} {r : Text}
    (h : (x.any isWord != r.head?.any isWord) = true) :
    Pattern.edge.Prefers ⟨pos, x, r⟩ [] r [] := by
  refine ⟨rfl, ?_⟩
  simp only [ends, Cursor.isAfter, Cursor.isBefore, h, if_true]
  rfl

/-- The last place that a run reaches is the one in front of the first character outside of its
class. -/
theorem getLast?_reach {cls : Char → Bool} {s r : Text} (hs : ∀ c ∈ s, cls c = true)
    (hr : r.head?.any cls = false) (pos : Nat) (x : Option Char) :
    (Cursor.reach cls pos x (s ++ r)).getLast? = some ⟨pos + s.length, lastOr x s, r⟩ := by
  induction s generalizing pos x with
  | nil =>
    cases r with
    | nil => rfl
    | cons c r =>
      have hc : cls c = false := hr
      simp [Cursor.reach, hc]
  | cons c s ih =>
    rw [List.cons_append, Cursor.reach, if_pos (hs c (by simp)), List.getLast?_cons,
      ih (fun d hd => hs d (by simp [hd]))]
    simp [Nat.add_assoc, Nat.add_comm 1]

/-- **A run** prefers to go on up to the first character outside of its class. -/
theorem prefers_many {cls : Char → Bool} {s r : Text} (hs : ∀ c ∈ s, cls c = true)
    (hr : r.head?.any cls = false) (pos : Nat) (x : Option Char) :
    (many cls).Prefers ⟨pos, x, s ++ r⟩ s r [] := by
  refine ⟨rfl, ?_⟩
  -- the places are reached one by one and tried from the last one back
  rw [many, ends, List.head?_map, List.head?_reverse, getLast?_reach hs hr]
  rfl

/-- A run that has to have a character prefers the same end. -/
theorem prefers_many1 {cls : Char → Bool} {s r : Text} (hne : s ≠ [])
    (hs : ∀ c ∈ s, cls c = true) (hr : r.head?.any cls = false) (pos : Nat) (x : Option Char) :
    (many1 cls).Prefers ⟨pos, x, s ++ r⟩ s r [] := by
  obtain ⟨c, s', rfl⟩ := List.exists_cons_of_ne_nil hne
  exact (prefers_one (hs c (by simp)) pos x (s' ++ r)).append
    (prefers_many (fun d hd => hs d (by simp [hd])) hr (pos + 1) (some c))

/-- Keeping a stretch does not change what is preferred. The stretch is the newest entry. -/
theorem Prefers.keep {p : Pattern} {pos : Nat} {x : Option Char} {t w r : Text}
    {kept : List (Slot × Span)} (h : p.Prefers ⟨pos, x, t⟩ w r kept) (slot : Slot) :
    (Pattern.keep slot p).Prefers ⟨pos, x, t⟩ w r ((slot, ⟨pos, pos + w.length⟩) :: kept) := by
  refine ⟨h.1, ?_⟩
  rw [ends, List.head?_map, h.2]
  rfl

end ChartLint.Pattern
