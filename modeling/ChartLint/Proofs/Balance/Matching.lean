import ChartLint.Proofs.Balance.Accounts
import ChartLint.Proofs.Respacing.Scan
import ChartLint.Source.Declaration
import Mathlib.Order.Bounds.Basic

/-!
# Matching braces and counting them

A brace is matched by a scan of its own, from the brace on; the balance rule counts all braces in one scan
of the whole text. That the two agree rests on one fact about every front of a text: its openers that are
not matched yet stand at the depths `n, …, 2, 1`, where `n` is what the counter shows (`depths_loose`). So
a closer is matched exactly if the counter is not zero, and then by one opener, the one at depth one
(`matches_iff`); what the counter forgives and what it has left are the braces without partner
(`looseClosers_eq_strays`, `length_looseOpeners`).
-/

namespace ChartLint.Rule.Balance

open Text Source Lexing

/-- Braces, as a pairing of characters. -/
abbrev braces : Pairing Char :=
  Delimiter.brace.pairing

/-! ## Depth -/

theorem Pairing.standing_append {α : Type} (p : Pairing α) (xs ys : List α) :
    p.standing (xs ++ ys) = p.standing xs + p.standing ys := by
  rw [standing, standing, standing, List.countP_append, List.countP_append]
  omega

theorem Pairing.standing_cons {α : Type} (p : Pairing α) (a : α) (xs : List α) :
    p.standing (a :: xs) = p.standing [a] + p.standing xs :=
  p.standing_append [a] xs

theorem standing_opener : braces.standing ['{'] = 1 := by decide

theorem standing_closer : braces.standing ['}'] = -1 := by decide

theorem standing_other {c : Char} (hopen : c ≠ '{') (hclose : c ≠ '}') : braces.standing [c] = 0 := by
  have hopens : braces.opens c = false := beq_false_of_ne hopen
  have hcloses : braces.closes c = false := beq_false_of_ne hclose
  simp [Pairing.standing, hopens, hcloses]

/-- A text stands at zero if it has as many opening as closing braces. -/
theorem standing_eq_zero {t : Text} : braces.standing t = 0 ↔ t.count '{' = t.count '}' := by
  show (t.count '{' : Int) - t.count '}' = 0 ↔ _
  omega

/-- A text stands above zero if it has more opening than closing braces. -/
theorem standing_pos {t : Text} : 0 < braces.standing t ↔ t.count '}' < t.count '{' := by
  show 0 < (t.count '{' : Int) - t.count '}' ↔ _
  omega

/-! ## The scan of one brace -/

theorem standing_take_succ (c : Char) (t : Text) (i : Nat) :
    braces.standing ((c :: t).take (i + 1)) = braces.standing [c] + braces.standing (t.take i) := by
  rw [List.take_succ_cons, Pairing.standing_cons]

/-- One step of the scan: it stops at a closer that it meets at depth one. -/
theorem closingFrom?_cons (depth : Int) (pos : Nat) (c : Char) (t : Text) :
    closingFrom? depth pos (c :: t)
      = if c = '}' ∧ depth = 1 then some pos
        else closingFrom? (depth + braces.standing [c]) (pos + 1) t := by
  rw [closingFrom?]
  by_cases hopen : c = '{'
  · subst hopen
    rw [if_pos rfl, if_neg (by simp), standing_opener]
  · rw [if_neg hopen]
    by_cases hclose : c = '}'
    · subst hclose
      simp only [if_true, true_and, standing_closer, Int.sub_eq_add_neg]
    · rw [if_neg hclose, if_neg (by simp [hclose]), standing_other hopen hclose, Int.add_zero]

/-- A scan that goes on is still inside of braces. -/
theorem depth_pos_next {depth : Int} (hdepth : 0 < depth) {c : Char} (hgo : ¬ (c = '}' ∧ depth = 1)) :
    0 < depth + braces.standing [c] := by
  by_cases hopen : c = '{'
  · rw [hopen, standing_opener]
    omega
  · by_cases hclose : c = '}'
    · have hne : depth ≠ 1 := fun hone => hgo ⟨hclose, hone⟩
      rw [hclose, standing_closer]
      omega
    · rw [standing_other hopen hclose]
      omega

/-- **Where the scan stops:** at the first closer in front of which the depth is one. -/
theorem closingFrom?_eq_some_iff {depth : Int} (hdepth : 0 < depth) {pos k : Nat} {t : Text} :
    closingFrom? depth pos t = some k
      ↔ ∃ j, k = pos + j ∧ t[j]? = some '}' ∧ depth + braces.standing (t.take j) = 1
        ∧ ∀ i ≤ j, 0 < depth + braces.standing (t.take i) := by
  induction t generalizing depth pos with
  | nil => simp [closingFrom?]
  | cons c t ih =>
    rw [closingFrom?_cons]
    by_cases hstop : c = '}' ∧ depth = 1
    · obtain ⟨rfl, rfl⟩ := hstop
      rw [if_pos ⟨rfl, rfl⟩, Option.some.injEq]
      constructor
      · rintro rfl
        exact ⟨0, rfl, rfl, rfl, by simp⟩
      · rintro ⟨j, rfl, -, -, hinside⟩
        cases j with
        | zero => rfl
        | succ j =>
          -- a later place would have depth zero behind this closer
          have hfirst := hinside 1 (by omega)
          rw [standing_take_succ, standing_closer] at hfirst
          simp at hfirst
    · rw [if_neg hstop, ih (depth_pos_next hdepth hstop)]
      constructor
      · rintro ⟨j, rfl, hclose, hone, hinside⟩
        refine ⟨j + 1, by omega, by simpa using hclose, ?_, fun i hi => ?_⟩
        · rw [standing_take_succ]
          omega
        · cases i with
          | zero => simpa using hdepth
          | succ i =>
            have hi' := hinside i (by omega)
            rw [standing_take_succ]
            omega
      · rintro ⟨j, rfl, hclose, hone, hinside⟩
        cases j with
        | zero => exact absurd ⟨by simpa using hclose, by simpa using hone⟩ hstop
        | succ j =>
          refine ⟨j, by omega, by simpa using hclose, ?_, fun i hi => ?_⟩
          · rw [standing_take_succ] at hone
            omega
          · have hi' := hinside (i + 1) (by omega)
            rw [standing_take_succ] at hi'
            omega

/-- The scan runs to the end if it is inside of braces all the way. -/
theorem closingFrom?_eq_none_iff {depth : Int} (hdepth : 0 < depth) {pos : Nat} {t : Text} :
    closingFrom? depth pos t = none ↔ ∀ i, 0 < depth + braces.standing (t.take i) := by
  induction t generalizing depth pos with
  | nil => simpa [closingFrom?] using hdepth
  | cons c t ih =>
    rw [closingFrom?_cons]
    by_cases hstop : c = '}' ∧ depth = 1
    · obtain ⟨rfl, rfl⟩ := hstop
      rw [if_pos ⟨rfl, rfl⟩]
      constructor
      · intro h
        cases h
      · intro hinside
        have hfirst := hinside 1
        rw [standing_take_succ, standing_closer] at hfirst
        simp at hfirst
    · rw [if_neg hstop, ih (depth_pos_next hdepth hstop)]
      constructor
      · intro hinside i
        cases i with
        | zero => simpa using hdepth
        | succ i =>
          rw [standing_take_succ, ← Int.add_assoc]
          exact hinside i
      · intro hinside i
        have hi := hinside (i + 1)
        rwa [standing_take_succ, ← Int.add_assoc] at hi

/-! ## The brace that closes an opener -/

theorem matchingBrace_eq {t : Text} {o : Nat} (ho : t[o]? = some '{') :
    matchingBrace t o = (closingFrom? 1 (o + 1) (t.drop (o + 1))).getD t.length := by
  obtain ⟨hlt, hchar⟩ := List.getElem?_eq_some_iff.mp ho
  rw [matchingBrace, List.drop_eq_getElem_cons hlt, hchar, closingFrom?, if_pos rfl]
  rfl

/-- The segment from an opener on stands one above what follows the opener. -/
theorem standing_slice {t : Text} {o : Nat} (ho : t[o]? = some '{') (i : Nat) :
    braces.standing (slice t o (o + 1 + i)) = 1 + braces.standing ((t.drop (o + 1)).take i) := by
  obtain ⟨hlt, hchar⟩ := List.getElem?_eq_some_iff.mp ho
  rw [Nat.add_right_comm, Nat.add_assoc, slice_add, List.drop_eq_getElem_cons hlt, hchar,
    standing_take_succ, standing_opener]

/-- **An opener is closed** by the first closer in front of which no other opener is open. -/
theorem matchingBrace_eq_iff {t : Text} {o p : Nat} (ho : t[o]? = some '{') (hp : p < t.length) :
    matchingBrace t o = p ↔ o < p ∧ t[p]? = some '}' ∧ braces.standing (slice t o p) = 1
      ∧ ∀ q, o < q → q ≤ p → 0 < braces.standing (slice t o q) := by
  have hscan : matchingBrace t o = p ↔ closingFrom? 1 (o + 1) (t.drop (o + 1)) = some p := by
    rw [matchingBrace_eq ho]
    cases closingFrom? 1 (o + 1) (t.drop (o + 1)) with
    | none => simpa using Nat.ne_of_gt hp
    | some k => simp
  rw [hscan, closingFrom?_eq_some_iff (by decide)]
  constructor
  · rintro ⟨j, rfl, hclose, hone, hinside⟩
    refine ⟨by omega, by rwa [← List.getElem?_drop], by rwa [standing_slice ho], fun q hq hqp => ?_⟩
    obtain ⟨i, rfl⟩ := Nat.exists_eq_add_of_lt hq
    rw [Nat.add_right_comm, standing_slice ho]
    exact hinside i (by omega)
  · rintro ⟨hlt, hclose, hone, hinside⟩
    obtain ⟨j, rfl⟩ := Nat.exists_eq_add_of_lt hlt
    rw [Nat.add_right_comm] at hclose hone hinside ⊢
    refine ⟨j, rfl, by rwa [List.getElem?_drop], by rwa [standing_slice ho] at hone, fun i hi => ?_⟩
    have hi' := hinside (o + 1 + i) (by omega) (by omega)
    rwa [standing_slice ho] at hi'

theorem closingFrom?_lt {t : Text} {o k : Nat} (h : closingFrom? 1 (o + 1) (t.drop (o + 1)) = some k) :
    k < t.length := by
  obtain ⟨body, rest, hsplit, hk⟩ := closingFrom?_eq_some h
  have hlength := congrArg List.length hsplit
  simp only [List.length_drop, List.length_append, List.length_cons] at hlength
  omega

/-- An opener is not closed if it stays open to the end. -/
theorem matchingBrace_eq_length_iff {t : Text} {o : Nat} (ho : t[o]? = some '{') :
    matchingBrace t o = t.length ↔ ∀ q, o < q → 0 < braces.standing (slice t o q) := by
  have hscan : matchingBrace t o = t.length ↔ closingFrom? 1 (o + 1) (t.drop (o + 1)) = none := by
    rw [matchingBrace_eq ho]
    cases hfound : closingFrom? 1 (o + 1) (t.drop (o + 1)) with
    | none => simp
    | some k => simpa using (closingFrom?_lt hfound).ne
  rw [hscan, closingFrom?_eq_none_iff (by decide)]
  constructor
  · intro hinside q hq
    obtain ⟨i, rfl⟩ := Nat.exists_eq_add_of_lt hq
    rw [Nat.add_right_comm, standing_slice ho]
    exact hinside i
  · intro hinside i
    have hi := hinside (o + 1 + i) (by omega)
    rwa [standing_slice ho] at hi

/-- A segment from one offset to another, both included, that has as many opening as closing braces. -/
structure Levels (t : Text) (o p : Nat) : Prop where
  behind : o < p
  inside : p < t.length
  level : (slice t o (p + 1)).count '{' = (slice t o (p + 1)).count '}'

/-- **The brace that closes an opener** ends the first level segment from it, and all fronts of that
segment have more opening than closing braces. -/
theorem matchingBrace_spec {t : Text} {o : Nat} (ho : t[o]? = some '{') :
    (IsLeast {p | Levels t o p} (matchingBrace t o) ∧ t[matchingBrace t o]? = some '}'
        ∧ ∀ q, o < q → q ≤ matchingBrace t o → (slice t o q).count '}' < (slice t o q).count '{')
      ∨ (matchingBrace t o = t.length ∧ ∀ p, ¬ Levels t o p) := by
  have hlt := (List.getElem?_eq_some_iff.mp ho).1
  rcases (Respacing.matchingBrace_le hlt.le).2.lt_or_eq with hclosed | hopen
  · obtain ⟨hlt, hclose, hone, hinside⟩ := (matchingBrace_eq_iff ho hclosed).mp rfl
    refine .inl ⟨⟨⟨hlt, hclosed, ?_⟩, ?_⟩, hclose, fun q hq hqp => standing_pos.mp (hinside q hq hqp)⟩
    · -- the closer takes back the one that the segment in front of it stands at
      rw [← standing_eq_zero, slice_add_one hlt.le hclose, Pairing.standing_append, hone, standing_closer]
      rfl
    · -- a shorter level segment would be a front of this one, and those stand above zero
      rintro q ⟨hq, -, hlevel⟩
      by_contra hless
      have hpos := hinside (q + 1) (by omega) (by omega)
      rw [standing_eq_zero.mpr hlevel] at hpos
      exact absurd hpos (by decide)
  · refine .inr ⟨hopen, ?_⟩
    rintro p ⟨hp, -, hlevel⟩
    have hpos := (matchingBrace_eq_length_iff ho).mp hopen (p + 1) (by omega)
    rw [standing_eq_zero.mpr hlevel] at hpos
    exact absurd hpos (by decide)

/-! ## Braces without partner -/

/-- Whether there is an opener at an offset and nothing closes it. -/
def isLoose (t : Text) (o : Nat) : Bool :=
  t[o]? == some '{' && matchingBrace t o == t.length

/-- The openers that nothing closes. -/
def looseOpeners (t : Text) : List Nat :=
  (List.range t.length).filter (isLoose t)

/-- The closers that close no opener. -/
def looseClosers (t : Text) : List Nat :=
  (List.range t.length).filter fun p =>
    t[p]? == some '}'
      && !(List.range t.length).any fun o => t[o]? == some '{' && matchingBrace t o == p

theorem isLoose_iff {t : Text} {o : Nat} :
    isLoose t o = true ↔ t[o]? = some '{' ∧ ∀ q, o < q → 0 < braces.standing (slice t o q) := by
  rw [isLoose, Bool.and_eq_true, beq_iff_eq, beq_iff_eq]
  exact and_congr_right fun ho => matchingBrace_eq_length_iff ho

theorem mem_looseOpeners {t : Text} {o : Nat} : o ∈ looseOpeners t ↔ isLoose t o = true := by
  rw [looseOpeners, List.mem_filter, List.mem_range, and_iff_right_iff_imp]
  intro hloose
  exact (List.getElem?_eq_some_iff.mp (isLoose_iff.mp hloose).1).1

theorem slice_concat {t : Text} {q : Nat} (hq : q ≤ t.length) (o : Nat) (c : Char) :
    slice (t ++ [c]) o q = slice t o q := by
  rw [slice, slice, List.take_append_of_le_length hq]

theorem slice_concat_all {t : Text} {o q : Nat} (ho : o ≤ t.length) (hq : t.length < q) (c : Char) :
    slice (t ++ [c]) o q = t.drop o ++ [c] := by
  rw [slice, List.take_of_length_le (by simp; omega), List.drop_append_of_le_length ho]

/-- An opener stays open behind one more character unless that brings it down to zero. -/
theorem isLoose_concat {t : Text} {o : Nat} (ho : o < t.length) (c : Char) :
    isLoose (t ++ [c]) o = true
      ↔ isLoose t o = true ∧ 0 < braces.standing (t.drop o) + braces.standing [c] := by
  rw [isLoose_iff, isLoose_iff, List.getElem?_append_left ho, and_assoc, ← Pairing.standing_append]
  refine and_congr_right fun _ => ⟨fun hinside => ⟨fun q hq => ?_, ?_⟩, ?_⟩
  · rcases Nat.le_total q t.length with hle | hle
    · rw [← slice_concat hle o c]
      exact hinside q hq
    · have hend := hinside t.length ho
      rwa [slice_concat (Nat.le_refl _), slice, List.take_length, ← List.take_of_length_le hle] at hend
  · have hlast := hinside (t.length + 1) (by omega)
    rwa [slice_concat_all ho.le (by omega)] at hlast
  · rintro ⟨hinside, hlast⟩ q hq
    rcases Nat.lt_or_ge t.length q with hlt | hle
    · rwa [slice_concat_all ho.le hlt]
    · rw [slice_concat hle]
      exact hinside q hq

theorem isLoose_concat_length (t : Text) (c : Char) : isLoose (t ++ [c]) t.length = true ↔ c = '{' := by
  rw [isLoose_iff, List.getElem?_concat_length, Option.some.injEq]
  refine ⟨And.left, fun hopen => ⟨hopen, fun q hq => ?_⟩⟩
  rw [slice_concat_all (Nat.le_refl _) hq, List.drop_length, hopen]
  decide

/-- **One more character** closes the openers that it brings down to zero, and may open one. -/
theorem looseOpeners_concat (t : Text) (c : Char) :
    looseOpeners (t ++ [c])
      = (looseOpeners t).filter (fun o => 0 < braces.standing (t.drop o) + braces.standing [c])
        ++ if c = '{' then [t.length] else [] := by
  rw [looseOpeners, looseOpeners, List.filter_filter, List.length_append, List.length_singleton,
    List.range_succ, List.filter_append, List.filter_singleton]
  congr 1
  · refine List.filter_congr fun o ho => Bool.eq_iff_iff.mpr ?_
    rw [isLoose_concat (List.mem_range.mp ho), Bool.and_eq_true, decide_eq_true_iff, and_comm]
  · rw [Bool.cond_eq_ite]
    exact if_congr (isLoose_concat_length t c) rfl rfl

/-! ## The depths of the loose openers -/

/-- The numbers from `n` down to one. -/
def countdown : Nat → List Int
  | 0 => []
  | n + 1 => (n + 1 : Nat) :: countdown n

theorem mem_countdown {n : Nat} {d : Int} : d ∈ countdown n ↔ 0 < d ∧ d ≤ n := by
  induction n with
  | zero =>
    simp [countdown]
  | succ n ih =>
    rw [countdown, List.mem_cons, ih]
    omega

theorem nodup_countdown (n : Nat) : (countdown n).Nodup := by
  induction n with
  | zero => exact List.nodup_nil
  | succ n ih =>
    refine List.nodup_cons.mpr ⟨fun hmem => ?_, ih⟩
    have hle := (mem_countdown.mp hmem).2
    omega

theorem length_countdown (n : Nat) : (countdown n).length = n := by
  induction n with
  | zero => rfl
  | succ n ih => rw [countdown, List.length_cons, ih]

/-- Everything one deeper, and a new one. -/
theorem countdown_succ (n : Nat) : countdown (n + 1) = (countdown n).map (· + 1) ++ [1] := by
  induction n with
  | zero => rfl
  | succ n ih =>
    show ((n + 1 + 1 : Nat) : Int) :: countdown (n + 1) = (((n + 1 : Nat) : Int) + 1) :: _ ++ [1]
    rw [ih]
    rfl

theorem filter_countdown (n : Nat) : (countdown n).filter (0 < ·) = countdown n :=
  List.filter_eq_self.mpr fun _ hd => decide_eq_true (mem_countdown.mp hd).1

/-- Everything one less deep, and the one at depth one gone. -/
theorem filter_countdown_pred (n : Nat) :
    ((countdown n).map (· + -1)).filter (0 < ·) = countdown (n - 1) := by
  cases n with
  | zero => rfl
  | succ n =>
    rw [countdown_succ, List.map_append, List.map_map, List.filter_append]
    have hback : (countdown n).map ((· + -1) ∘ (· + 1)) = countdown n := by
      simp [Function.comp_def]
    rw [hback, filter_countdown]
    simp

/-- **The depths** of the loose openers, the first one deepest, are the numbers from the counter down to
one. -/
theorem depths_loose (t : Text) :
    (looseOpeners t).map (fun o => braces.standing (t.drop o)) = countdown (braces.openCount t) := by
  induction t using List.reverseRecOn with
  | nil => rfl
  | append_singleton t c ih =>
    -- the old depths move by what the character stands for
    have hold : ((looseOpeners t).filter
          (fun o => 0 < braces.standing (t.drop o) + braces.standing [c])).map
            (fun o => braces.standing ((t ++ [c]).drop o))
        = ((countdown (braces.openCount t)).map (· + braces.standing [c])).filter (0 < ·) := by
      rw [← ih, List.map_map, List.filter_map]
      refine List.map_congr_left fun o ho => ?_
      have hlt : o < t.length :=
        List.mem_range.mp (List.mem_of_mem_filter (List.mem_of_mem_filter ho))
      rw [List.drop_append_of_le_length hlt.le, Pairing.standing_append]
      rfl
    rw [looseOpeners_concat, List.map_append, hold, Pairing.openCount_concat, Pairing.countAfter]
    by_cases hopen : c = '{'
    · have hpos : ((countdown (braces.openCount t)).map (· + 1)).filter (0 < ·)
          = (countdown (braces.openCount t)).map (· + 1) := by
        refine List.filter_eq_self.mpr fun d hd => decide_eq_true ?_
        obtain ⟨d', hd', rfl⟩ := List.mem_map.mp hd
        have hdepth := (mem_countdown.mp hd').1
        omega
      have hopens : braces.opens c = true := beq_iff_eq.mpr hopen
      rw [if_pos hopen, if_pos hopens, countdown_succ, hopen, standing_opener, hpos, List.map_singleton,
        List.drop_left, standing_opener]
    · have hopens : braces.opens c = false := beq_false_of_ne hopen
      rw [if_neg hopen, hopens, if_neg Bool.false_ne_true, List.map_nil, List.append_nil]
      by_cases hclose : c = '}'
      · have hcloses : braces.closes c = true := beq_iff_eq.mpr hclose
        rw [if_pos hcloses, hclose, standing_closer, filter_countdown_pred]
      · have hcloses : braces.closes c = false := beq_false_of_ne hclose
        rw [hcloses, if_neg Bool.false_ne_true, standing_other hopen hclose]
        simp only [Int.add_zero, List.map_id', filter_countdown]

/-- **As many openers are loose** as the counter shows. -/
theorem length_looseOpeners (t : Text) : (looseOpeners t).length = braces.openCount t := by
  have hlength := congrArg List.length (depths_loose t)
  rwa [List.length_map, length_countdown] at hlength

/-! ## Which opener a closer closes -/

/-- A closer closes the opener that stands at depth one in front of it. -/
theorem closes_iff {t : Text} {o p : Nat} (hp : p < t.length) :
    (t[o]? = some '{' ∧ matchingBrace t o = p)
      ↔ t[p]? = some '}' ∧ o ∈ looseOpeners (t.take p) ∧ braces.standing ((t.take p).drop o) = 1 := by
  rw [mem_looseOpeners, isLoose_iff, List.getElem?_take]
  have hclamp : ∀ q, slice (t.take p) o q = slice t o (min q p) := by
    intro q
    rw [slice, slice, List.take_take]
  constructor
  · rintro ⟨ho, hmatch⟩
    obtain ⟨hlt, hclose, hone, hinside⟩ := (matchingBrace_eq_iff ho hp).mp hmatch
    refine ⟨hclose, ⟨by rwa [if_pos hlt], fun q hq => ?_⟩, hone⟩
    rw [hclamp]
    exact hinside _ (by omega) (by omega)
  · rintro ⟨hclose, ⟨ho, hinside⟩, hone⟩
    have hlt : o < p := by
      by_contra hge
      rw [if_neg hge] at ho
      cases ho
    rw [if_pos hlt] at ho
    refine ⟨ho, (matchingBrace_eq_iff ho hp).mpr ⟨hlt, hclose, hone, fun q hq hqp => ?_⟩⟩
    have hq' := hinside q hq
    rwa [hclamp, Nat.min_eq_left hqp] at hq'

/-- **No closer closes two openers.** -/
theorem matchingBrace_inj {t : Text} {o o' : Nat} (ho : t[o]? = some '{') (ho' : t[o']? = some '{')
    (hmatch : matchingBrace t o = matchingBrace t o') (hclosed : matchingBrace t o < t.length) :
    o = o' := by
  obtain ⟨-, hmem, hone⟩ := (closes_iff hclosed).mp ⟨ho, rfl⟩
  obtain ⟨-, hmem', hone'⟩ := (closes_iff hclosed).mp ⟨ho', hmatch.symm⟩
  -- both stand at depth one in front of the closer, where every depth is taken once
  have hnodup := nodup_countdown (braces.openCount (t.take (matchingBrace t o)))
  rw [← depths_loose] at hnodup
  exact List.inj_on_of_nodup_map hnodup hmem hmem' (hone.trans hone'.symm)

/-- A closer closes an opener exactly if the counter is not at zero in front of it. -/
theorem exists_closes_iff {t : Text} {p : Nat} (hclose : t[p]? = some '}') :
    (∃ o, t[o]? = some '{' ∧ matchingBrace t o = p) ↔ braces.openCount (t.take p) ≠ 0 := by
  obtain ⟨hp, -⟩ := List.getElem?_eq_some_iff.mp hclose
  have hone : (∃ o ∈ looseOpeners (t.take p), braces.standing ((t.take p).drop o) = 1)
      ↔ (1 : Int) ∈ countdown (braces.openCount (t.take p)) := by
    rw [← depths_loose, List.mem_map]
  simp only [closes_iff hp, hclose, true_and]
  rw [hone, mem_countdown]
  omega

/-- **The closers without partner** are the stray ones. -/
theorem looseClosers_eq_strays (t : Text) : looseClosers t = braces.strays t := by
  refine List.filter_congr fun p hp => Bool.eq_iff_iff.mpr ?_
  have hpartner : (List.range t.length).any (fun o => t[o]? == some '{' && matchingBrace t o == p) = true
      ↔ ∃ o, t[o]? = some '{' ∧ matchingBrace t o = p := by
    simp only [List.any_eq_true, List.mem_range, Bool.and_eq_true, beq_iff_eq]
    refine exists_congr fun o => and_iff_right_iff_imp.mpr fun h => ?_
    exact (List.getElem?_eq_some_iff.mp h.1).1
  by_cases hclose : t[p]? = some '}'
  · have hcloses : t[p]?.any braces.closes = true := by
      rw [hclose]
      rfl
    rw [Bool.and_eq_true, Bool.and_eq_true, Bool.not_eq_true', ← Bool.not_eq_true, hpartner,
      exists_closes_iff hclose, hcloses, beq_iff_eq, beq_iff_eq]
    simp [hclose]
  · have hcloses : t[p]?.any braces.closes = false := by
      cases hchar : t[p]? with
      | none => rfl
      | some c =>
        refine beq_false_of_ne fun heq => hclose ?_
        rw [hchar, heq]
        rfl
    simp [hclose, hcloses]

/-! ## What the rule says of braces -/

/-- The message on a closer without partner. -/
def Delimiter.strayMessage (d : Delimiter) : String :=
  s!"Unmatched closing {d.label} '{d.closer}'"

/-- The message on `n` openers without partner. -/
def Delimiter.unclosedMessage (d : Delimiter) (n : Nat) : String :=
  s!"{n} unclosed {d.label}(s) '{d.opener}' at end of file"

theorem strayMessage_inj {d e : Delimiter} (h : d.strayMessage = e.strayMessage) : d = e := by
  cases d <;> cases e <;> first | rfl | (revert h; decide)

theorem getLast?_append_text (a : String) {b : String} {c : Char} (hb : b.toList.getLast? = some c) :
    (a ++ b).toList.getLast? = some c := by
  rw [String.toList_append, List.getLast?_append, hb, Option.some_or]

theorem getLast?_strayMessage (d : Delimiter) : d.strayMessage.toList.getLast? = some '\'' :=
  getLast?_append_text _ (by decide)

theorem getLast?_unclosedMessage (d : Delimiter) (n : Nat) :
    (d.unclosedMessage n).toList.getLast? = some 'e' :=
  getLast?_append_text _ (by decide)

/-- No report on regions reads like one on delimiters. -/
theorem getLast?_of_mem_regionFindings {t : Text} {f : Finding} (hf : f ∈ regionFindings t) :
    f.message.toList.getLast? = some 'n' := by
  rw [regionFindings_eq, regionReport, List.mem_append, List.mem_map] at hf
  rcases hf with ⟨j, -, rfl⟩ | hf
  · show "#endregion without matching #region".toList.getLast? = some 'n'
    decide
  · split at hf
    · cases hf
    · obtain rfl := List.mem_singleton.mp hf
      exact getLast?_append_text _ (by decide)

/-- What a message says behind its number. -/
def Delimiter.unclosedTail (d : Delimiter) : Text :=
  (" unclosed " ++ d.label ++ "(s) '" ++ toString d.opener ++ "' at end of file").toList

theorem toList_unclosedMessage (d : Delimiter) (n : Nat) :
    (d.unclosedMessage n).toList = n.repr.toList ++ d.unclosedTail := by
  simp only [Delimiter.unclosedMessage, Delimiter.unclosedTail, String.toList_append, List.append_assoc]
  rfl

/-- The number and the delimiter can be read off the message. -/
theorem unclosedMessage_inj {d e : Delimiter} {m n : Nat}
    (h : d.unclosedMessage m = e.unclosedMessage n) : d = e ∧ m = n := by
  have hlist := congrArg String.toList h
  rw [toList_unclosedMessage, toList_unclosedMessage] at hlist
  -- the delimiter stands at a fixed distance from the end
  have hplace : ∀ (x : Text) (d : Delimiter), (x ++ d.unclosedTail).reverse[16]? = some d.opener := by
    intro x d
    rw [List.reverse_append]
    cases d <;> rfl
  have hopener : d.opener = e.opener := by
    have hchar := congrArg (fun l : Text => l.reverse[16]?) hlist
    rwa [hplace, hplace, Option.some.injEq] at hchar
  have hkind : d = e := by
    cases d <;> cases e <;> first | rfl | (revert hopener; decide)
  subst hkind
  have hdigits := List.append_cancel_right hlist
  rw [Nat.toList_repr, Nat.toList_repr] at hdigits
  have hvalue := congrArg (Nat.ofDigitChars 10 · 0) hdigits
  simp only [Nat.ofDigitChars_ten_toDigits] at hvalue
  exact ⟨rfl, hvalue⟩

/-- The issues of the rule, before they get its name. -/
theorem check_balance (code : Text) :
    Rule.balance.check (Source.ofCode code)
      = .ok ((delimiterFindings (mask code) ++ regionFindings (mask code)).map
        fun f => { f with check := "syntax" }) :=
  rfl

/-- The reports on openers that are left open. -/
theorem mem_unclosed {t : Text} {last : Nat} {f : Finding} :
    f ∈ Delimiter.all.filterMap (unclosed? (openAtEnd t) last)
      ↔ ∃ d : Delimiter, d.pairing.openCount t ≠ 0
        ∧ f = .error last (d.unclosedMessage (d.pairing.openCount t)) := by
  have hreport : ∀ d : Delimiter, unclosed? (openAtEnd t) last d = some f
      ↔ d.pairing.openCount t ≠ 0 ∧ f = .error last (d.unclosedMessage (d.pairing.openCount t)) := by
    intro d
    rw [unclosed?, get_openAtEnd]
    by_cases hzero : d.pairing.openCount t = 0
    · simp [hzero]
    · rw [if_neg hzero, Option.some.injEq, and_iff_right hzero, eq_comm]
      rfl
  rw [List.mem_filterMap]
  simp only [hreport]
  refine exists_congr fun d => and_iff_right ?_
  cases d <;> decide

/-- The reports on closing braces without partner. -/
theorem filter_strayMessage (t : Text) :
    (delimiterFindings t ++ regionFindings t).filter (·.message == Delimiter.brace.strayMessage)
      = (looseClosers t).map fun p => .error (lineOf t p) Delimiter.brace.strayMessage := by
  have hstrays : ((straysFrom .zero 1 t).map Stray.finding).filter
      (·.message == Delimiter.brace.strayMessage)
        = (looseClosers t).map fun p => .error (lineOf t p) Delimiter.brace.strayMessage := by
    have hkind : ∀ s : Stray, (s.finding.message == Delimiter.brace.strayMessage)
        = (s.delimiter == .brace) := by
      intro s
      refine Bool.eq_iff_iff.mpr ?_
      rw [beq_iff_eq, beq_iff_eq]
      exact ⟨strayMessage_inj, fun h => congrArg Delimiter.strayMessage h⟩
    have hfilter := filter_straysFrom_append .brace t []
    rw [List.append_nil, straysFrom, List.filter_nil, List.append_nil] at hfilter
    simp only [List.filter_map, Function.comp_def, hkind]
    rw [hfilter, looseClosers_eq_strays, List.map_map]
    rfl
  -- all other reports end in another letter
  have hother : ∀ {fs : List Finding} {c : Char}, c ≠ '\'' →
      (∀ f ∈ fs, f.message.toList.getLast? = some c) →
        fs.filter (·.message == Delimiter.brace.strayMessage) = [] := by
    intro fs c hc hlast
    refine List.filter_eq_nil_iff.mpr fun f hf heq => hc ?_
    have hend := hlast f hf
    rw [beq_iff_eq.mp heq, getLast?_strayMessage] at hend
    exact (Option.some.inj hend).symm
  rw [delimiterFindings, List.filter_append, List.filter_append, hstrays, hother (c := 'e') (by decide),
    hother (c := 'n') (by decide), List.append_nil, List.append_nil]
  · exact fun f hf => getLast?_of_mem_regionFindings hf
  · intro f hf
    obtain ⟨d, -, rfl⟩ := mem_unclosed.mp hf
    exact getLast?_unclosedMessage d _

/-- The report on opening braces without partner. -/
theorem exists_unclosedMessage {t : Text} {n : Nat} :
    (∃ f ∈ delimiterFindings t ++ regionFindings t, f.message = Delimiter.brace.unclosedMessage n)
      ↔ n = (looseOpeners t).length ∧ n ≠ 0 := by
  rw [length_looseOpeners]
  constructor
  · rintro ⟨f, hf, hmessage⟩
    have hlast := getLast?_unclosedMessage .brace n
    rw [← hmessage] at hlast
    rw [delimiterFindings, List.mem_append, List.mem_append] at hf
    rcases hf with (hf | hf) | hf
    · obtain ⟨s, -, rfl⟩ := List.mem_map.mp hf
      rw [show s.finding.message = s.delimiter.strayMessage from rfl, getLast?_strayMessage] at hlast
      exact absurd hlast (by decide)
    · obtain ⟨d, hne, rfl⟩ := mem_unclosed.mp hf
      obtain ⟨rfl, rfl⟩ := unclosedMessage_inj hmessage
      exact ⟨rfl, hne⟩
    · rw [getLast?_of_mem_regionFindings hf] at hlast
      exact absurd hlast (by decide)
  · rintro ⟨rfl, hne⟩
    refine ⟨.error (lines t).length (Delimiter.brace.unclosedMessage (braces.openCount t)), ?_, rfl⟩
    rw [delimiterFindings, List.mem_append, List.mem_append]
    exact .inl (.inr (mem_unclosed.mpr ⟨.brace, hne, rfl⟩))

/-- The opening brace of a method's body. -/
theorem methodBody?_opener {t method : Text} {span : Span} (h : methodBody? t method = some span) :
    t[span.start]? = some '{' ∧ span.stop = matchingBrace t span.start := by
  rw [methodBody?] at h
  split at h
  · cases h
  · next head _ =>
    obtain ⟨opener, hopener, rfl⟩ := Option.map_eq_some_iff.mp h
    refine ⟨?_, rfl⟩
    obtain ⟨k, hk, rfl⟩ := Option.map_eq_some_iff.mp hopener
    obtain ⟨hlt, hbrace, -⟩ := List.findIdx?_eq_some_iff_getElem.mp hk
    show t[head.stop + k]? = some '{'
    rw [← List.getElem?_drop, List.getElem?_eq_getElem hlt, beq_iff_eq.mp hbrace]

/-- **Matching and counting agree:** an opening brace is matched with the end of the first level segment
from it, and no two with the same one. The rule reports a closing brace exactly where it matches no
opener, and states how many openers are not matched, if there are any; so the body of a method is closed
if it says nothing of open braces. -/
theorem matchingBrace_accounts (code : Text) :
    let t := mask code
    (∀ o, t[o]? = some '{' →
        (IsLeast {p | Levels t o p} (matchingBrace t o) ∧ t[matchingBrace t o]? = some '}'
            ∧ ∀ q, o < q → q ≤ matchingBrace t o → (slice t o q).count '}' < (slice t o q).count '{')
          ∨ (matchingBrace t o = t.length ∧ ∀ p, ¬ Levels t o p))
      ∧ (∀ o o', t[o]? = some '{' → t[o']? = some '{' → matchingBrace t o = matchingBrace t o' →
          matchingBrace t o < t.length → o = o')
      ∧ ∃ issues, Rule.balance.check (Source.ofCode code) = .ok issues
        ∧ issues.filter (·.message == Delimiter.brace.strayMessage)
          = (looseClosers t).map
            (fun p => { Finding.error (lineOf t p) Delimiter.brace.strayMessage with check := "syntax" })
        ∧ (∀ n, (∃ i ∈ issues, i.message = Delimiter.brace.unclosedMessage n)
          ↔ n = (looseOpeners t).length ∧ n ≠ 0)
        ∧ ((∀ i ∈ issues, ∀ n, i.message ≠ Delimiter.brace.unclosedMessage n) →
          ∀ method span, methodBody? t method = some span → span.stop < t.length) := by
  intro t
  have hunclosed : ∀ n, (∃ i ∈ (delimiterFindings t ++ regionFindings t).map
        (fun f => ({ f with check := "syntax" } : Issue)), i.message = Delimiter.brace.unclosedMessage n)
      ↔ n = (looseOpeners t).length ∧ n ≠ 0 := by
    intro n
    rw [← exists_unclosedMessage]
    simp only [List.mem_map, exists_exists_and_eq_and]
  refine ⟨fun o ho => matchingBrace_spec ho, fun o o' ho ho' => matchingBrace_inj ho ho', _,
    check_balance code, ?_, hunclosed, ?_⟩
  · have hstrays := congrArg (List.map fun f => ({ f with check := "syntax" } : Issue))
      (filter_strayMessage t)
    rw [List.map_map] at hstrays
    rw [List.filter_map]
    exact hstrays
  · intro hsilent method span hspan
    obtain ⟨hopener, hstop⟩ := methodBody?_opener hspan
    rw [hstop]
    -- a body that is not closed starts at a loose opener, and the rule speaks of those
    have hlt := (List.getElem?_eq_some_iff.mp hopener).1
    refine (Respacing.matchingBrace_le hlt.le).2.lt_of_ne fun hopen => ?_
    have hloose : span.start ∈ looseOpeners t :=
      mem_looseOpeners.mpr (isLoose_iff.mpr ⟨hopener, (matchingBrace_eq_length_iff hopener).mp hopen⟩)
    obtain ⟨i, hi, hmessage⟩ := (hunclosed _).mpr ⟨rfl, (List.length_pos_of_mem hloose).ne'⟩
    exact hsilent i hi _ hmessage

end ChartLint.Rule.Balance
