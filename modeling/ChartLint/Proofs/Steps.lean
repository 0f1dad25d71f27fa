import ChartLint.Fault
import Mathlib.Data.List.Basic

/-!
# Lists of steps that may fail

Steps taken one after the other: they answer together if each of them answers (`flatMapM_eq_ok`,
`filterMapM_eq_ok`, `exists_filterMapM`), what they answer comes from one of them
(`exists_of_mem_filterMapM`), and they fail with what one of them fails with (`filterMapM_eq_error`). Two
lists of steps whose answers look alike one by one look alike as a whole (`filterMapM_congr_view`).
-/

namespace ChartLint

variable {α α' β γ ε : Type} {xs : List α}

/-- What a step makes of an answer comes from the answer. -/
theorem exists_of_map_eq_ok {x : Except ε α} {f : α → β} {b : β} (h : x.map f = .ok b) :
    ∃ a, x = .ok a ∧ f a = b := by
  cases x with
  | error e => cases h
  | ok a => exact ⟨a, rfl, Except.ok.inj h⟩

/-- Of two steps that answer the first one does. -/
theorem exists_of_bind_eq_ok {x : Except ε α} {f : α → Except ε β} {b : β} (h : x >>= f = .ok b) :
    ∃ a, x = .ok a ∧ f a = .ok b := by
  cases x with
  | error e => cases h
  | ok a => exact ⟨a, rfl, h⟩

theorem flatMapM_eq_ok {f : α → Except ε (List β)} {g : α → List β}
    (h : ∀ x ∈ xs, f x = .ok (g x)) : xs.flatMapM f = .ok (xs.flatMap g) := by
  induction xs with
  | nil => rfl
  | cons x xs ih =>
    rw [List.flatMapM_cons, h x List.mem_cons_self,
      ih (fun y hy => h y (List.mem_cons_of_mem x hy))]
    rfl

theorem filterMapM_eq_ok {f : α → Except ε (Option β)} {g : α → Option β}
    (h : ∀ x ∈ xs, f x = .ok (g x)) : xs.filterMapM f = .ok (xs.filterMap g) := by
  induction xs with
  | nil => rfl
  | cons x xs ih =>
    rw [List.filterMapM_cons, h x List.mem_cons_self,
      ih (fun y hy => h y (List.mem_cons_of_mem x hy)), List.filterMap_cons]
    cases g x <;> rfl

theorem filterMapM_congr {f f' : α → Except ε (Option β)} (h : ∀ x ∈ xs, f x = f' x) :
    xs.filterMapM f = xs.filterMapM f' := by
  induction xs with
  | nil => rfl
  | cons x xs ih =>
    rw [List.filterMapM_cons, List.filterMapM_cons, h x List.mem_cons_self,
      ih (fun y hy => h y (List.mem_cons_of_mem x hy))]

theorem filterMap_unless {q : α → Bool} {f : α → β} :
    xs.filterMap (fun x => if q x then none else some (f x)) = (xs.filter (fun x => !q x)).map f := by
  induction xs with
  | nil => rfl
  | cons x xs ih =>
    cases hq : q x with
    | true => rw [List.filterMap_cons_none (by simp [hq]), ih, List.filter_cons_of_neg (by simp [hq])]
    | false =>
      rw [List.filterMap_cons_some (b := f x) (by simp [hq]), ih, List.filter_cons_of_pos (by simp [hq]),
        List.map_cons]

/-- Where every step has its value, a fold over all of them has the value of the fold. -/
theorem foldlM_eq_ok {f : β → α → Except ε β} {g : β → α → β} (h : ∀ y x, f y x = .ok (g y x))
    (xs : List α) (y : β) : xs.foldlM f y = .ok (xs.foldl g y) := by
  induction xs generalizing y with
  | nil => rfl
  | cons x xs ih => rw [List.foldlM_cons, h, ok_bind, ih, List.foldl_cons]

/-- Steps that all answer answer together. -/
theorem exists_filterMapM {f : α → Except ε (Option β)} (h : ∀ x ∈ xs, ∃ y, f x = .ok y) :
    ∃ ys, xs.filterMapM f = .ok ys := by
  induction xs with
  | nil => exact ⟨[], rfl⟩
  | cons x xs ih =>
    obtain ⟨y, hy⟩ := h x List.mem_cons_self
    obtain ⟨ys, hys⟩ := ih (fun z hz => h z (List.mem_cons_of_mem x hz))
    rw [List.filterMapM_cons, hy, hys]
    cases y <;> exact ⟨_, rfl⟩

/-- Every answer is the answer of one step. -/
theorem exists_of_mem_filterMapM {f : α → Except ε (Option β)} {ys : List β}
    (h : xs.filterMapM f = .ok ys) {y : β} (hy : y ∈ ys) : ∃ x ∈ xs, f x = .ok (some y) := by
  induction xs generalizing ys with
  | nil =>
    cases h
    cases hy
  | cons x xs ih =>
    rw [List.filterMapM_cons] at h
    cases hfirst : f x with
    | error e =>
      rw [hfirst] at h
      cases h
    | ok first =>
      rw [hfirst] at h
      cases hothers : xs.filterMapM f with
      | error e =>
        rw [hothers] at h
        cases first <;> cases h
      | ok others =>
        rw [hothers] at h
        have hlater : y ∈ others → ∃ x' ∈ x :: xs, f x' = .ok (some y) := fun hmem =>
          (ih hothers hmem).imp (fun _ hx => ⟨List.mem_cons_of_mem x hx.1, hx.2⟩)
        cases first with
        | none =>
          cases h
          exact hlater hy
        | some z =>
          cases h
          rcases List.mem_cons.mp hy with rfl | hmem
          · exact ⟨x, List.mem_cons_self, hfirst⟩
          · exact hlater hmem

/-- Steps of which one fails fail together, with what one of them fails with. -/
theorem filterMapM_eq_error {f : α → Except ε (Option β)} {x : α} (hx : x ∈ xs) {e : ε}
    (he : f x = .error e) : ∃ y ∈ xs, ∃ e', f y = .error e' ∧ xs.filterMapM f = .error e' := by
  induction xs with
  | nil => cases hx
  | cons first others ih =>
    rw [List.filterMapM_cons]
    cases hfirst : f first with
    | error e' => exact ⟨first, List.mem_cons_self, e', hfirst, rfl⟩
    | ok value =>
      have hlater : x ∈ others := by
        refine (List.mem_cons.mp hx).resolve_left ?_
        rintro rfl
        rw [he] at hfirst
        cases hfirst
      obtain ⟨y, hy, e', hfault, hall⟩ := ih hlater
      refine ⟨y, List.mem_cons_of_mem first hy, e', hfault, ?_⟩
      rw [hall]
      cases value <;> rfl

theorem map_filterMapM_cons (f : α → Except ε (Option β)) (x : α) (xs : List α) (χ : β → γ) :
    ((x :: xs).filterMapM f).map (List.map χ)
      = ((f x).map (Option.map χ)).bind (fun z =>
        ((xs.filterMapM f).map (List.map χ)).map (z.toList ++ ·)) := by
  rw [List.filterMapM_cons]
  rcases f x with _ | _ | _ <;> cases xs.filterMapM f <;> rfl

/-- Steps that may fail, with their answers seen through two views. -/
theorem filterMapM_congr_view {g : α → α'} {f : α → Except ε (Option β)}
    {f' : α' → Except ε (Option β)} {φ ψ : β → γ}
    (h : ∀ x ∈ xs, (f' (g x)).map (Option.map φ) = (f x).map (Option.map ψ)) :
    ((xs.map g).filterMapM f').map (List.map φ) = (xs.filterMapM f).map (List.map ψ) := by
  induction xs with
  | nil => rfl
  | cons x xs ih =>
    rw [List.map_cons, map_filterMapM_cons, map_filterMapM_cons, h x List.mem_cons_self,
      ih (fun y hy => h y (List.mem_cons_of_mem x hy))]

end ChartLint
