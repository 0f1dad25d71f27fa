import ChartLint.Proofs.Balance.Accounts
import ChartLint.Source.Brace
import Mathlib.Order.Bounds.Basic

/-!
# The end of a call argument

An argument is read up to a comma, a semicolon or a bracket that belongs to what is around it. Which one
that is can be said without a scan: a text *is an argument* if it closes nothing that it did not open and
has its separators inside of brackets (`IsArgument`), and then so is every front of it. A character makes
it longer unless it is one of the five in `argumentEnds` and nothing is open in front of it
(`isArgument_concat`). The kinds of brackets are not told apart, so a parenthesis may be closed by a
brace.

The scan keeps the counter of `Pairing`. That counter forgives stray closers, but an argument has none, so
it shows the standing of what has been read (`IsArgument.openCount_eq`). Hence the scan stops behind the
longest argument, and no other offset looks like its end (`argumentAt_longest`).
-/

namespace ChartLint.Source

open Text Rule.Balance

/-! ## Brackets of all kinds -/

/-- Brackets of the three kinds together, as a pairing of characters. -/
def brackets : Pairing Char where
  opens c := (Delimiter.ofOpener? c).isSome
  closes c := (Delimiter.ofCloser? c).isSome
  apart c hopen := by
    rcases delimiter_cases c with ⟨d, rfl⟩ | ⟨d, rfl⟩ | ⟨hnone, -⟩
    · rw [ofCloser?_opener]
      rfl
    · rw [ofOpener?_closer] at hopen
      cases hopen
    · rw [hnone] at hopen
      cases hopen

/-- The characters that end an argument if no bracket of it is open. -/
def argumentEnds : List Char :=
  [',', ';', ')', ']', '}']

theorem opens_iff {c : Char} : brackets.opens c = true ↔ c = '(' ∨ c = '[' ∨ c = '{' := by
  simp only [brackets, Delimiter.ofOpener?, List.find?_isSome, Delimiter.all, Delimiter.opener,
    List.mem_cons, List.not_mem_nil, or_false, exists_eq_or_imp, exists_eq_left, beq_iff_eq]
  constructor <;> rintro (rfl | rfl | rfl) <;> simp

theorem closes_iff {c : Char} : brackets.closes c = true ↔ c = ')' ∨ c = ']' ∨ c = '}' := by
  simp only [brackets, Delimiter.ofCloser?, List.find?_isSome, Delimiter.all, Delimiter.closer,
    List.mem_cons, List.not_mem_nil, or_false, exists_eq_or_imp, exists_eq_left, beq_iff_eq]
  constructor <;> rintro (rfl | rfl | rfl) <;> simp

/-- What ends an argument closes a bracket or stands in front of the next argument. -/
theorem mem_argumentEnds {c : Char} :
    c ∈ argumentEnds ↔ brackets.closes c = true ∨ c = ',' ∨ c = ';' := by
  rw [closes_iff]
  simp only [argumentEnds, List.mem_cons, List.not_mem_nil, or_false]
  tauto

theorem not_mem_argumentEnds_of_opens {c : Char} (h : brackets.opens c = true) : c ∉ argumentEnds := by
  rcases opens_iff.mp h with rfl | rfl | rfl <;> decide

/-! ## Arguments -/

/-- **A text is an argument, or the front of one:** no front of it closes more than it opens, and what
separates arguments stands inside of brackets. -/
structure IsArgument (v : Text) : Prop where
  closes_opened : ∀ n, 0 ≤ brackets.standing (v.take n)
  separates_inside : ∀ n, v[n]? = some ',' ∨ v[n]? = some ';' → brackets.standing (v.take n) ≠ 0

variable {v : Text}

theorem isArgument_nil : IsArgument [] :=
  ⟨fun n => by simp, fun n hsep => by simp at hsep⟩

theorem IsArgument.standing_nonneg (hv : IsArgument v) : 0 ≤ brackets.standing v := by
  have hall := hv.closes_opened v.length
  rwa [List.take_length] at hall

/-- A front of an argument is one. -/
theorem IsArgument.take (hv : IsArgument v) (n : Nat) : IsArgument (v.take n) where
  closes_opened m := by
    rw [List.take_take]
    exact hv.closes_opened _
  separates_inside m hsep := by
    have hlt : m < n := by
      by_contra hle
      rw [List.getElem?_take_eq_none (by omega)] at hsep
      simp at hsep
    rw [List.getElem?_take_of_lt hlt] at hsep
    rw [List.take_take, Nat.min_eq_left hlt.le]
    exact hv.separates_inside m hsep

/-- **One more character** makes an argument longer unless it ends it. -/
theorem isArgument_concat {c : Char} :
    IsArgument (v ++ [c]) ↔ IsArgument v ∧ ¬ (c ∈ argumentEnds ∧ brackets.standing v = 0) := by
  constructor
  · intro hlong
    refine ⟨by simpa using hlong.take v.length, ?_⟩
    rintro ⟨hend, hlevel⟩
    rcases mem_argumentEnds.mp hend with hclose | hsep
    · -- a closer would bring the standing below zero
      have hlow := hlong.standing_nonneg
      rcases brackets.standing_concat v c with ⟨-, hopen, -⟩ | ⟨-, -, hstep⟩ | ⟨-, hopen, -⟩
      · simp [hclose] at hopen
      · omega
      · simp [hclose] at hopen
    · refine hlong.separates_inside v.length ?_ (by simpa using hlevel)
      simpa using hsep
  · rintro ⟨hv, hgo⟩
    have hlow := hv.standing_nonneg
    have hwhole : 0 ≤ brackets.standing (v ++ [c]) := by
      rcases brackets.standing_concat v c with ⟨-, -, hstep⟩ | ⟨-, hclose, hstep⟩ | ⟨-, -, hstep⟩
      · omega
      · have hne : brackets.standing v ≠ 0 := fun hlevel =>
          hgo ⟨mem_argumentEnds.mpr (.inl hclose), hlevel⟩
        omega
      · omega
    refine ⟨fun n => ?_, fun n hsep => ?_⟩
    · rcases Nat.lt_or_ge v.length n with hlt | hle
      · rwa [List.take_of_length_le (by rw [List.length_append]; exact hlt)]
      · rw [List.take_append_of_le_length hle]
        exact hv.closes_opened n
    · rcases Nat.lt_trichotomy n v.length with hlt | rfl | hgt
      · rw [List.getElem?_append_left hlt] at hsep
        rw [List.take_append_of_le_length hlt.le]
        exact hv.separates_inside n hsep
      · rw [List.getElem?_concat_length] at hsep
        rw [List.take_left]
        exact fun hlevel => hgo ⟨mem_argumentEnds.mpr (.inr (by simpa using hsep)), hlevel⟩
      · rw [List.getElem?_eq_none (by simp; omega)] at hsep
        simp at hsep

/-- In an argument the counter has nothing to forgive. -/
theorem IsArgument.openCount_eq (hv : IsArgument v) :
    (brackets.openCount v : Int) = brackets.standing v := by
  obtain ⟨n, -, hlow⟩ := brackets.exists_standing_eq v (Nat.le_refl _)
  have hfront := hv.closes_opened n
  rw [brackets.openCount_eq]
  omega

/-! ## The scan -/

/-- **One step of the scan:** it stops at what ends an argument if nothing is open, and else counts. -/
theorem argumentEndFrom_cons (depth pos : Nat) (c : Char) (t : Text) :
    argumentEndFrom depth pos (c :: t)
      = if c ∈ argumentEnds ∧ depth = 0 then pos
        else argumentEndFrom (brackets.countAfter depth c) (pos + 1) t := by
  rw [argumentEndFrom, Pairing.countAfter]
  by_cases hopen : brackets.opens c = true
  · rw [if_pos (opens_iff.mp hopen), if_neg (fun hend => not_mem_argumentEnds_of_opens hopen hend.1),
      if_pos hopen]
  · rw [if_neg (fun h => hopen (opens_iff.mpr h)), if_neg hopen]
    by_cases hclose : brackets.closes c = true
    · have hend : c ∈ argumentEnds := mem_argumentEnds.mpr (.inl hclose)
      simp only [if_pos (closes_iff.mp hclose), hend, true_and, if_pos hclose]
    · have hend : c ∈ argumentEnds ↔ c = ',' ∨ c = ';' := by
        rw [mem_argumentEnds, or_iff_right hclose]
      simp only [if_neg (fun h => hclose (closes_iff.mpr h)), hend, if_neg hclose]

/-- **The scan** goes on behind an argument `v`, with the brackets of `v` open, as far as the two together
are an argument. -/
theorem argumentEndFrom_spec (hv : IsArgument v) (pos : Nat) (t : Text) :
    ∃ j ≤ t.length, argumentEndFrom (brackets.openCount v) pos t = pos + j
      ∧ IsArgument (v ++ t.take j)
      ∧ (j = t.length
        ∨ (∃ c ∈ argumentEnds, t[j]? = some c) ∧ brackets.standing (v ++ t.take j) = 0) := by
  -- what has been read moves from `t` to `v`, so the counter is that of `v` at every step
  induction t generalizing v pos with
  | nil => exact ⟨0, Nat.le_refl _, rfl, by simpa using hv, .inl rfl⟩
  | cons c t ih =>
    have hcount := hv.openCount_eq
    rw [argumentEndFrom_cons]
    by_cases hstop : c ∈ argumentEnds ∧ brackets.openCount v = 0
    · rw [if_pos hstop]
      refine ⟨0, Nat.zero_le _, rfl, by simpa using hv, .inr ⟨⟨c, hstop.1, rfl⟩, ?_⟩⟩
      rw [List.take_zero, List.append_nil]
      omega
    · rw [if_neg hstop, ← Pairing.openCount_concat]
      have hnext : IsArgument (v ++ [c]) :=
        isArgument_concat.mpr ⟨hv, fun hend => hstop ⟨hend.1, by omega⟩⟩
      obtain ⟨j, hj, hscan, hread, hend⟩ := ih hnext (pos + 1)
      have hfront : v ++ (c :: t).take (j + 1) = v ++ [c] ++ t.take j := by
        rw [List.take_succ_cons, List.append_assoc, List.singleton_append]
      refine ⟨j + 1, by simpa using hj, by omega, by rwa [hfront], ?_⟩
      rw [hfront, List.length_cons, List.getElem?_cons_succ]
      exact hend.imp_left (congrArg (· + 1))

/-! ## The longest argument -/

/-- **The offset `p` ends the argument at `start`:** an argument stands between the two, and at `p` the
text is over or has a character that ends an argument, with no bracket open. -/
structure EndsArgument (t : Text) (start p : Nat) : Prop where
  start_le : start ≤ p
  argument : IsArgument (slice t start p)
  stops : p = max start t.length
    ∨ (∃ c ∈ argumentEnds, t[p]? = some c) ∧ brackets.standing (slice t start p) = 0

variable {t : Text} {start p : Nat}

theorem EndsArgument.stop_le (h : EndsArgument t start p) : p ≤ max start t.length := by
  rcases h.stops with hall | ⟨⟨c, -, hchar⟩, -⟩
  · exact hall.le
  · have hlt := (List.getElem?_eq_some_iff.mp hchar).1
    omega

/-- An offset that ends the argument leaves no longer one. -/
theorem EndsArgument.isGreatest (h : EndsArgument t start p) :
    IsGreatest {q | start ≤ q ∧ q ≤ max start t.length ∧ IsArgument (slice t start q)} p := by
  refine ⟨⟨h.start_le, h.stop_le, h.argument⟩, ?_⟩
  rintro q ⟨-, hq, hlong⟩
  rcases h.stops with hall | ⟨⟨c, hc, hchar⟩, hlevel⟩
  · omega
  · by_contra hlt
    -- a longer argument would have the character that ends this one
    have hstart := h.start_le
    have hfront : (slice t start q).take (p + 1 - start) = slice t start p ++ [c] := by
      have hcut : min (start + (p + 1 - start)) q = p + 1 := by omega
      rw [take_slice, hcut, slice_add_one hstart hchar]
    have hnext := hlong.take (p + 1 - start)
    rw [hfront] at hnext
    exact (isArgument_concat.mp hnext).2 ⟨hc, hlevel⟩

variable (t start)

/-- What the scan finds ends the argument. -/
theorem endsArgument_argumentAt : EndsArgument t start (argumentAt t start).stop := by
  obtain ⟨j, hj, hscan, hread, hend⟩ := argumentEndFrom_spec isArgument_nil start (t.drop start)
  rw [List.nil_append, ← slice_add] at hread hend
  rw [List.length_drop] at hj hend
  rw [List.getElem?_drop] at hend
  have hstop : (argumentAt t start).stop = start + j := hscan
  rw [hstop]
  exact ⟨Nat.le_add_right _ _, hread, hend.imp_left (fun hall => by omega)⟩

/-- **The argument at an offset** is the longest one that starts there, and its end is the only offset
that ends it. -/
theorem argumentAt_longest :
    (argumentAt t start).start = start
      ∧ (∀ p, EndsArgument t start p ↔ p = (argumentAt t start).stop)
      ∧ IsGreatest {q | start ≤ q ∧ q ≤ max start t.length ∧ IsArgument (slice t start q)}
        (argumentAt t start).stop := by
  have hends := endsArgument_argumentAt t start
  refine ⟨rfl, fun p => ⟨fun hp => ?_, ?_⟩, hends.isGreatest⟩
  · exact hp.isGreatest.unique hends.isGreatest
  · rintro rfl
    exact hends

/-- A nested call belongs to the argument, with the comma in it. -/
example : argumentAt "f(a(b, c), d)".toList 2 = ⟨2, 9⟩ := by decide

end ChartLint.Source
