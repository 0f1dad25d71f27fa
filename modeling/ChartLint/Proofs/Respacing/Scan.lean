import ChartLint.Proofs.Repair.Brace
import ChartLint.Proofs.Respacing.Search
import ChartLint.Proofs.Source.Lookup
import ChartLint.Source.Declaration
import ChartLint.Source.Phase
import ChartLint.Text.Blank

/-!
# Scans of a respaced script

The scans that go over a script character by character give their results at their places: the
search for a closing brace, for the end of an argument and for the next visible character, and the
choice of the marker that stands nearest in front of an offset.
-/

namespace ChartLint

namespace Respacing

open Text Pattern Source

variable {r : Respacing} {place : Nat → Nat}

/-! ## Places along a text -/

/-- The places along a text, from one offset on. -/
def Aligned (r : Respacing) (place : Nat → Nat) (pos pos' : Nat) (t : Text) : Prop :=
  ∀ u v, t = u ++ v → place (pos + u.length) = pos' + (r.inner u).length

theorem Aligned.here {pos pos' : Nat} {t : Text} (h : Aligned r place pos pos' t) :
    place pos = pos' := by
  have hnil := h [] t rfl
  simpa using hnil

theorem Aligned.next {pos pos' : Nat} {c : Char} {t : Text} (h : Aligned r place pos pos' (c :: t)) :
    Aligned r place (pos + 1) (pos' + (r.spelling c).length) t := by
  intro u v huv
  have hcons := h (c :: u) v (by rw [huv, List.cons_append])
  have hpos : pos + (u.length + 1) = pos + 1 + u.length := by omega
  rw [List.length_cons, inner_cons, List.length_append, hpos] at hcons
  omega

/-- A scan that starts at an offset and one that starts at its place are aligned. -/
theorem aligned_drop {t : Text} {n : Nat} (h : n ≤ t.length) :
    Aligned r (r.place t) n (r.place t n) (t.drop n) := by
  obtain ⟨g, x, rfl, rfl⟩ := exists_append h
  intro u v huv
  rw [List.drop_left] at huv
  subst huv
  have hplace := r.place_append (g ++ u) v
  rw [List.append_assoc] at hplace
  rw [← List.length_append, hplace, place_append, text, text, inner_append]
  simp only [List.length_append]
  omega

/-- **A scan over a respaced text.** If a scan does at each character the same in both texts, passes
over carriage returns and starts at the same place, it ends at the same place. -/
theorem closingFrom?_inner {depth : Int} {pos pos' : Nat} {t : Text} (h : Aligned r place pos pos' t) :
    closingFrom? depth pos' (r.inner t) = (closingFrom? depth pos t).map place := by
  induction t generalizing depth pos pos' with
  | nil => rfl
  | cons c t ih =>
    have hnext := h.next
    by_cases hc : c = '\n'
    · subst hc
      have hskip : closingFrom? depth pos' (r.inner ('\n' :: t))
          = closingFrom? depth (pos' + (r.spelling '\n').length) (r.inner t) := by
        rw [inner_cons_feed, spelling, if_pos rfl, lineEnd]
        split <;> rfl
      rw [hskip, ih hnext]
      rfl
    · rw [spelling_of_ne hc] at hnext
      have hhere := h.here
      rw [inner_cons_of_ne hc, closingFrom?, closingFrom?]
      split
      · exact ih hnext
      · split
        · split
          · rw [Option.map_some, hhere]
          · exact ih hnext
        · exact ih hnext

/-- The scan for the end of an argument stops at the place where it stops in the script. -/
theorem argumentEndFrom_inner {depth pos pos' : Nat} {t : Text} (h : Aligned r place pos pos' t) :
    argumentEndFrom depth pos' (r.inner t) = place (argumentEndFrom depth pos t) := by
  induction t generalizing depth pos pos' with
  | nil => exact h.here.symm
  | cons c t ih =>
    have hnext := h.next
    by_cases hc : c = '\n'
    · subst hc
      have hskip : argumentEndFrom depth pos' (r.inner ('\n' :: t))
          = argumentEndFrom depth (pos' + (r.spelling '\n').length) (r.inner t) := by
        rw [inner_cons_feed, spelling, if_pos rfl, lineEnd]
        split <;> rfl
      rw [hskip, ih hnext]
      rfl
    · rw [spelling_of_ne hc] at hnext
      have hhere := h.here
      rw [inner_cons_of_ne hc, argumentEndFrom, argumentEndFrom]
      split
      · exact ih hnext
      · split
        · split
          · exact hhere.symm
          · exact ih hnext
        · split
          · exact hhere.symm
          · exact ih hnext

/-! ## Brackets -/

/-- **The closing brace** of an opening one. -/
theorem matchingBrace_text {t : Text} {opener : Nat} (h : opener ≤ t.length) :
    matchingBrace (r.text t) (r.place t opener) = r.place t (matchingBrace t opener) := by
  rw [matchingBrace, matchingBrace, drop_text h, closingFrom?_inner (aligned_drop h), length_text]
  cases closingFrom? 0 opener (t.drop opener) <;> rfl

/-- **The argument** that starts at an offset. -/
theorem argumentAt_text {t : Text} {start : Nat} (h : start ≤ t.length) :
    argumentAt (r.text t) (r.place t start) = r.span t (argumentAt t start) := by
  rw [argumentAt, argumentAt, drop_text h, argumentEndFrom_inner (aligned_drop h)]
  rfl

/-- A character that is no part of a line break is found behind the respelled front. -/
theorem findIdx?_inner {c : Char} (hfeed : c ≠ '\n') (hreturn : c ≠ '\r') (t : Text) :
    (r.inner t).findIdx? (· == c)
      = (t.findIdx? (· == c)).map (fun i => (r.inner (t.take i)).length) := by
  induction t with
  | nil => rfl
  | cons d t ih =>
    by_cases hd : d = '\n'
    · subst hd
      have hne : ('\n' == c) = false := by simpa using hfeed.symm
      have hne' : ('\r' == c) = false := by simpa using hreturn.symm
      have hskip : (r.inner ('\n' :: t)).findIdx? (· == c)
          = ((r.inner t).findIdx? (· == c)).map (· + (r.spelling '\n').length) := by
        rw [inner_cons_feed, spelling, if_pos rfl, lineEnd]
        split
        · simp [List.findIdx?_cons, hne, hne', Function.comp_def]
        · simp [List.findIdx?_cons, hne]
      rw [hskip, ih, List.findIdx?_cons, hne]
      simp only [Option.map_map, Bool.false_eq_true, if_false]
      congr 1
      funext i
      simp only [Function.comp_apply, List.take_succ_cons, inner_cons, List.length_append]
      omega
    · rw [inner_cons_of_ne hd, List.findIdx?_cons, List.findIdx?_cons]
      split
      · rfl
      · rw [ih]
        simp only [Option.map_map]
        congr 1
        funext i
        simp only [Function.comp_apply, List.take_succ_cons, inner_cons_of_ne hd, List.length_cons]

/-- **The next character** of a kind. -/
theorem indexFrom?_text {c : Char} (hfeed : c ≠ '\n') (hreturn : c ≠ '\r') {t : Text} {start : Nat}
    (h : start ≤ t.length) :
    indexFrom? (r.text t) c (r.place t start) = (indexFrom? t c start).map (r.place t) := by
  rw [indexFrom?, indexFrom?, drop_text h, findIdx?_inner hfeed hreturn]
  cases hi : (t.drop start).findIdx? (· == c) with
  | none => rfl
  | some i =>
    have hlt : i < (t.drop start).length := by
      rw [List.findIdx?_eq_some_iff_getElem] at hi
      exact hi.1
    have haligned := r.aligned_drop h ((t.drop start).take i) ((t.drop start).drop i)
      (List.take_append_drop i _).symm
    rw [List.length_take_of_le (Nat.le_of_lt hlt)] at haligned
    simp only [Option.map_some, haligned]

/-- What is found lies behind the start and inside the text. -/
theorem indexFrom?_lt {c : Char} {t : Text} {start n : Nat} (h : indexFrom? t c start = some n) :
    start ≤ n ∧ n < t.length := by
  rw [indexFrom?, Option.map_eq_some_iff] at h
  obtain ⟨i, hi, rfl⟩ := h
  rw [List.findIdx?_eq_some_iff_getElem] at hi
  obtain ⟨hlt, -⟩ := hi
  rw [List.length_drop] at hlt
  omega

/-- A brace is matched behind it, or at the end of the text. -/
theorem matchingBrace_le {t : Text} {opener : Nat} (h : opener ≤ t.length) :
    opener ≤ matchingBrace t opener ∧ matchingBrace t opener ≤ t.length := by
  rw [matchingBrace]
  cases hk : closingFrom? 0 opener (t.drop opener) with
  | none => exact ⟨h, Nat.le_refl _⟩
  | some k =>
    obtain ⟨body, rest, hrest, hlength⟩ := closingFrom?_eq_some hk
    have hdrop := congrArg List.length hrest
    simp only [List.length_drop, List.length_append, List.length_cons] at hdrop
    simp only [Option.getD_some]
    omega

/-! ## Blanks -/

/-- A run of blanks is respelled as a whole, since both characters of a line break are blank. -/
theorem takeWhile_isBlank_inner (t : Text) :
    (r.inner t).takeWhile isBlank = r.inner (t.takeWhile isBlank) := by
  induction t with
  | nil => rfl
  | cons c t ih =>
    by_cases hc : c = '\n'
    · subst hc
      have hblank : isBlank '\n' = true := by decide
      have hend : ∀ d ∈ r.lineEnd, isBlank d = true := by
        intro d hd
        obtain rfl := mem_lineEnd hd
        decide
      rw [inner_cons_feed, List.takeWhile_append_of_pos hend, List.takeWhile_cons_of_pos hblank, ih,
        List.takeWhile_cons_of_pos hblank, inner_cons_feed]
    · rw [inner_cons_of_ne hc, List.takeWhile_cons, List.takeWhile_cons, ih]
      split
      · rw [inner_cons_of_ne hc]
      · rfl

/-- **The next visible character.** -/
theorem place_skip {t : Text} {n : Nat} (h : n ≤ t.length) :
    r.place t n + (((r.text t).drop (r.place t n)).takeWhile isBlank).length
      = r.place t (n + ((t.drop n).takeWhile isBlank).length) := by
  have haligned := r.aligned_drop h ((t.drop n).takeWhile isBlank) ((t.drop n).dropWhile isBlank)
    List.takeWhile_append_dropWhile.symm
  rw [drop_text h, takeWhile_isBlank_inner, haligned]

/-! ## What is blanked -/

/-- Texts that fit are told apart by the first characters of their respellings. -/
theorem head?_inner_inj {s t : Text} (hs : r.Fits s) (ht : r.Fits t) :
    (r.inner s).head? = (r.inner t).head? ↔ s.head? = t.head? := by
  cases hr : r.returns with
  | false => rw [inner_of_not_returns hr, inner_of_not_returns hr]
  | true =>
    have hhead : ∀ u : Text, (r.inner u).head? = u.head?.map (fun c => if c = '\n' then '\r' else c) := by
      intro u
      cases u with
      | nil => rfl
      | cons c u =>
        by_cases hc : c = '\n'
        · subst hc
          rw [inner_cons_feed, lineEnd_of_returns hr]
          rfl
        · rw [inner_cons_of_ne hc, List.head?_cons, List.head?_cons, Option.map_some, if_neg hc]
    have hnot : ∀ {u : Text} {c : Char}, r.Fits u → u.head? = some c → c ≠ '\r' := by
      rintro u c hu hc rfl
      exact hu hr (List.mem_of_head? hc)
    rw [hhead, hhead]
    constructor
    · intro heq
      cases hcs : s.head? with
      | none =>
        cases hdt : t.head? with
        | none => rfl
        | some d =>
          rw [hcs, hdt] at heq
          cases heq
      | some c =>
        cases hdt : t.head? with
        | none =>
          rw [hcs, hdt] at heq
          cases heq
        | some d =>
          have hc := hnot hs hcs
          have hd := hnot ht hdt
          rw [hcs, hdt, Option.map_some, Option.map_some, Option.some.injEq] at heq
          rw [Option.some.injEq]
          split at heq
          · next hcn =>
            split at heq
            · next hdn => rw [hcn, hdn]
            · exact absurd heq.symm hd
          · split at heq
            · exact absurd heq hc
            · exact heq
    · intro heq
      rw [heq]

theorem Fits.drop {t : Text} (h : r.Fits t) (n : Nat) : r.Fits (t.drop n) :=
  fun hr hmem => h hr (List.mem_of_mem_drop hmem)

/-- **A comment or a literal** stays one. -/
theorem isBlanked_text {code : Text} (hfits : r.Fits code) {n : Nat} (h : n ≤ code.length) :
    (Source.ofCode (r.text code)).isBlanked (r.place code n) = (Source.ofCode code).isBlanked n := by
  have hmask : n ≤ (Lexing.mask code).length := by rwa [Lexing.length_mask]
  have hget : ∀ {t : Text} {k : Nat}, t[k]? = (t.drop k).head? := by
    intro t k
    rw [List.head?_drop]
  show ((Lexing.mask (r.text code))[r.place code n]? != (r.text code)[r.place code n]?)
    = ((Lexing.mask code)[n]? != code[n]?)
  rw [mask_text hfits, hget, hget, hget, hget, drop_text h, ← place_mask code, drop_text hmask]
  rw [Bool.eq_iff_iff, bne_iff_ne, bne_iff_ne, not_iff_not]
  exact head?_inner_inj ((fits_mask hfits).drop n) (hfits.drop n)

/-! ## Phases -/

/-- Where a marker lies in the respaced script. -/
def markAt (place : Nat → Nat) (m : Phase.Mark) : Phase.Mark :=
  ⟨m.phase, place m.offset⟩

/-- The last mark of a phase in front of an offset: places keep the order, so that it stays the
last. -/
theorem lastMark?_map (hmono : StrictMono place) (ms : List Phase.Mark) (phase : Phase) (n : Nat) :
    Phase.lastMark? (ms.map (markAt place)) phase (place n)
      = (Phase.lastMark? ms phase n).map place := by
  have hfold : ∀ best : Option Nat,
      (ms.map (markAt place)).foldl (fun best m =>
          if m.phase = phase ∧ m.offset < place n then some m.offset else best) (best.map place)
      = (ms.foldl (fun best m =>
          if m.phase = phase ∧ m.offset < n then some m.offset else best) best).map place := by
    induction ms with
    | nil => exact fun best => rfl
    | cons m ms ih =>
      intro best
      rw [List.map_cons, List.foldl_cons, List.foldl_cons, ← ih]
      congr 1
      simp only [markAt, hmono.lt_iff_lt]
      split <;> rfl
  exact hfold none

/-- Which of two marks is later does not change with their places. -/
theorem better?_map (hmono : StrictMono place) (ms : List Phase.Mark) (n : Nat)
    (best : Option Phase.Mark) (phase : Phase) :
    Phase.better? (ms.map (markAt place)) (place n) (best.map (markAt place)) phase
      = (Phase.better? ms n best phase).map (markAt place) := by
  unfold Phase.better?
  rw [lastMark?_map hmono]
  cases Phase.lastMark? ms phase n with
  | none => rfl
  | some pos =>
    have hbest : (best.map (markAt place)).all (fun b => decide (b.offset < place pos))
        = best.all (fun b => decide (b.offset < pos)) := by
      cases best with
      | none => rfl
      | some b => exact decide_eq_decide.mpr hmono.lt_iff_lt
    simp only [Option.map_some, hbest]
    split <;> rfl

/-- The latest of the phases stays the latest. -/
theorem latest?_map (hmono : StrictMono place) (ms : List Phase.Mark) (n : Nat) :
    Phase.latest? (ms.map (markAt place)) (place n) = (Phase.latest? ms n).map (markAt place) := by
  have hfold : ∀ (phases : List Phase) (best : Option Phase.Mark),
      phases.foldl (Phase.better? (ms.map (markAt place)) (place n)) (best.map (markAt place))
        = (phases.foldl (Phase.better? ms n) best).map (markAt place) := by
    intro phases
    induction phases with
    | nil => exact fun best => rfl
    | cons phase phases ih =>
      intro best
      rw [List.foldl_cons, List.foldl_cons, ← ih, better?_map hmono]
  exact hfold Phase.all none

/-- **The phase of a place** is the phase of the offset. -/
theorem at?_map (hmono : StrictMono place) (ms : List Phase.Mark) (n : Nat) :
    Phase.at? (ms.map (markAt place)) (place n) = Phase.at? ms n := by
  rw [Phase.at?, Phase.at?, latest?_map hmono, Option.map_map]
  rfl

/-- Each phase has one pattern of marks, with its name as a literal. -/
theorem steady_marker (phase : Phase) : r.Steady phase.marker := by
  apply steady_of_isSteady
  cases phase <;> decide

/-- **The markers of the phases.** -/
theorem marks_text {t : Text} (hfits : r.Fits t) :
    Phase.marks (r.text t) = (Phase.marks t).map (markAt (r.place t)) := by
  unfold Phase.marks
  rw [List.map_flatMap]
  congr 1
  funext phase
  rw [findAll_text (steady_marker phase) hfits, List.map_map, List.map_map]
  rfl

theorem at?_text {t : Text} (hfits : r.Fits t) (n : Nat) :
    Phase.at? (Phase.marks (r.text t)) (r.place t n) = Phase.at? (Phase.marks t) n := by
  rw [marks_text hfits, at?_map (r.place_strictMono t)]

/-- The phase of a moved match. -/
theorem at?_start {t : Text} (hfits : r.Fits t) (m : Match) :
    Phase.at? (Phase.marks (r.text t)) (m.moved (r.place t)).start
      = Phase.at? (Phase.marks t) m.start :=
  at?_text hfits m.start

/-! ## Methods -/

theorem steady_overrideHead : r.Steady (overrideHead "OnBarUpdate".toList) :=
  steady_of_isSteady (by decide)

/-- **The body of the bar update.** -/
theorem methodBody?_text {t : Text} (hfits : r.Fits t) :
    methodBody? (r.text t) "OnBarUpdate".toList
      = (methodBody? t "OnBarUpdate".toList).map (r.span t) := by
  unfold methodBody?
  rw [find?_text steady_overrideHead hfits]
  cases hm : (overrideHead "OnBarUpdate".toList).find? t with
  | none => rfl
  | some m =>
    have hstop : m.stop ≤ t.length := (found_of_find? hm).bounds.2
    simp only [Option.map_some, Match.moved]
    rw [indexFrom?_text (by decide) (by decide) hstop]
    cases hopener : indexFrom? t '{' m.stop with
    | none => rfl
    | some opener =>
      have hlt := (indexFrom?_lt hopener).2
      simp only [Option.map_some, matchingBrace_text (Nat.le_of_lt hlt)]
      rfl

end Respacing

end ChartLint
