import ChartLint.Proofs.Lexing.Splice
import ChartLint.Proofs.Text.Lines
import Mathlib.Order.Monotone.Basic

/-!
# Respacing a script

A script can be respaced in two ways that carry no meaning: empty lines are put in front of it, and
every line feed gets a carriage return in front. `Respacing.text` does both at once; an offset of the
script moves to `Respacing.place`, and a line to `Respacing.lineNo`.

The module holds what this does to slices, to line numbers and to the mask. The one thing to know
about the second way is that it opens a gap *inside* the line break, between the carriage return and
the line feed, that is the place of no offset of the script.
-/

namespace ChartLint

/-- A change of spacing: how many empty lines are put in front, and whether line feeds get carriage
returns. -/
structure Respacing where
  front : Nat
  returns : Bool
deriving DecidableEq, Repr

namespace Respacing

open Text

variable (r : Respacing)

/-- What a line has at its end. -/
def lineEnd : Text :=
  if r.returns then ['\r'] else []

/-- What stands for one character of the script. -/
def spelling (c : Char) : Text :=
  if c = '\n' then r.lineEnd ++ ['\n'] else [c]

/-- The text with its line breaks spelled anew. -/
def inner (t : Text) : Text :=
  t.flatMap r.spelling

/-- The empty lines in front. -/
def head : Text :=
  r.inner (List.replicate r.front '\n')

/-- The respaced script. -/
def text (t : Text) : Text :=
  r.head ++ r.inner t

/-- How many characters the respacing adds to a text. -/
def extra (t : Text) : Nat :=
  if r.returns then t.count '\n' else 0

/-- Where an offset of a script lies in the respaced script. -/
def place (t : Text) (offset : Nat) : Nat :=
  r.head.length + offset + r.extra (t.take offset)

/-- Where a span of a script lies in the respaced script. -/
def span (t : Text) (s : Span) : Span :=
  ⟨r.place t s.start, r.place t s.stop⟩

/-- The number of a line in the respaced script; zero stands for the whole script. -/
def lineNo (line : Int) : Int :=
  if line = 0 then 0 else line + r.front

/-- Carriage returns are only put into texts that have none. -/
def Fits (t : Text) : Prop :=
  r.returns = true → '\r' ∉ t

variable {r}

/-! ## Spelling -/

@[simp]
theorem inner_nil : r.inner [] = [] :=
  rfl

/-- Texts are respelled piece by piece. -/
@[simp]
theorem inner_append (a b : Text) : r.inner (a ++ b) = r.inner a ++ r.inner b :=
  List.flatMap_append

theorem inner_cons (c : Char) (t : Text) : r.inner (c :: t) = r.spelling c ++ r.inner t :=
  List.flatMap_cons

@[simp]
theorem inner_cons_feed (t : Text) : r.inner ('\n' :: t) = r.lineEnd ++ '\n' :: r.inner t := by
  rw [inner_cons, spelling, if_pos rfl, List.append_assoc, List.singleton_append]

theorem inner_cons_of_ne {c : Char} (h : c ≠ '\n') (t : Text) :
    r.inner (c :: t) = c :: r.inner t := by
  rw [inner_cons, spelling, if_neg h, List.singleton_append]

/-- A text without line feeds is spelled as before. -/
theorem inner_of_not_mem {t : Text} (h : '\n' ∉ t) : r.inner t = t := by
  induction t with
  | nil => rfl
  | cons c t ih =>
    rw [List.mem_cons, not_or] at h
    rw [inner_cons_of_ne (Ne.symm h.1), ih h.2]

theorem lineEnd_of_returns (h : r.returns = true) : r.lineEnd = ['\r'] :=
  if_pos h

theorem lineEnd_of_not_returns (h : r.returns = false) : r.lineEnd = [] := by
  rw [lineEnd, h]
  rfl

theorem spelling_of_ne {c : Char} (h : c ≠ '\n') : r.spelling c = [c] :=
  if_neg h

theorem spelling_feed_of_returns (h : r.returns = true) : r.spelling '\n' = ['\r', '\n'] := by
  rw [spelling, if_pos rfl, lineEnd_of_returns h]
  rfl

theorem spelling_feed_of_not_returns (h : r.returns = false) : r.spelling '\n' = ['\n'] := by
  rw [spelling, if_pos rfl, lineEnd_of_not_returns h]
  rfl

/-- Without carriage returns nothing is respelled, and the respacing only puts lines in front. -/
theorem inner_of_not_returns (h : r.returns = false) (t : Text) : r.inner t = t := by
  induction t with
  | nil => rfl
  | cons c t ih =>
    by_cases hc : c = '\n'
    · rw [hc, inner_cons_feed, lineEnd_of_not_returns h, ih, List.nil_append]
    · rw [inner_cons_of_ne hc, ih]

/-- What stands in front of a line feed is a carriage return, if anything does. -/
theorem mem_lineEnd {c : Char} (h : c ∈ r.lineEnd) : c = '\r' := by
  unfold lineEnd at h
  split at h
  · exact List.mem_singleton.mp h
  · cases h

theorem not_mem_lineEnd : '\n' ∉ r.lineEnd := by
  intro h
  cases mem_lineEnd h

/-- A respelled text has no character but its own and carriage returns. -/
theorem mem_inner {c : Char} {t : Text} (h : c ∈ r.inner t) : c ∈ t ∨ c = '\r' := by
  obtain ⟨d, hd, hc⟩ := List.mem_flatMap.mp h
  rw [spelling] at hc
  split at hc
  · next hfeed =>
    rcases List.mem_append.mp hc with hc | hc
    · exact .inr (mem_lineEnd hc)
    · rw [List.mem_singleton.mp hc, ← hfeed]
      exact .inl hd
  · rw [List.mem_singleton.mp hc]
    exact .inl hd

/-- Lines are neither made nor lost. -/
theorem count_inner (t : Text) : (r.inner t).count '\n' = t.count '\n' := by
  induction t with
  | nil => rfl
  | cons c t ih =>
    by_cases hc : c = '\n'
    · rw [hc, inner_cons_feed, List.count_append, List.count_eq_zero_of_not_mem not_mem_lineEnd,
        List.count_cons_self, List.count_cons_self, ih, Nat.zero_add]
    · rw [inner_cons_of_ne hc, List.count_cons_of_ne hc, List.count_cons_of_ne hc, ih]

@[simp]
theorem extra_nil : r.extra [] = 0 := by
  simp [extra]

theorem extra_append (a b : Text) : r.extra (a ++ b) = r.extra a + r.extra b := by
  unfold extra
  split
  · exact List.count_append
  · rfl

/-- How much a text grows hangs on the number of its line feeds. -/
theorem extra_congr {a b : Text} (h : a.count '\n' = b.count '\n') : r.extra a = r.extra b := by
  rw [extra, extra, h]

/-- A text grows by one character for each line feed that is respelled. -/
theorem length_inner (t : Text) : (r.inner t).length = t.length + r.extra t := by
  induction t with
  | nil => simp
  | cons c t ih =>
    have hsplit : c :: t = [c] ++ t := rfl
    rw [hsplit, inner_append, List.length_append, ih, List.length_append, extra_append]
    have hone : (r.inner [c]).length = [c].length + r.extra [c] := by
      by_cases hc : c = '\n'
      · subst hc
        cases hr : r.returns <;> simp [lineEnd, extra, hr]
      · rw [inner_cons_of_ne hc, extra, List.count_eq_zero_of_not_mem (by simpa using Ne.symm hc)]
        simp
    omega

theorem count_head : r.head.count '\n' = r.front := by
  rw [head, count_inner, List.count_replicate_self]

/-! ## Places -/

/-- **The place of a cut** is the length of the respaced front. -/
theorem place_append (g x : Text) : r.place (g ++ x) g.length = (r.text g).length := by
  rw [place, List.take_left, text, List.length_append, length_inner]
  omega

theorem place_zero (t : Text) : r.place t 0 = r.head.length := by
  simp [place]

theorem extra_take_mono (t : Text) {a b : Nat} (h : a ≤ b) : r.extra (t.take a) ≤ r.extra (t.take b) := by
  unfold extra
  split
  · exact (List.take_sublist_take_left h).count_le '\n'
  · exact Nat.le_refl 0

/-- Places keep the order of offsets. -/
theorem place_strictMono (t : Text) : StrictMono (r.place t) := by
  intro a b hab
  have hextra := r.extra_take_mono t (Nat.le_of_lt hab)
  unfold place
  omega

/-- Texts with the same line breaks have the same places. -/
theorem place_congr {t t' : Text} (h : ∀ n, (t.take n).count '\n' = (t'.take n).count '\n') :
    r.place t = r.place t' := by
  funext n
  rw [place, place, extra_congr (h n)]

theorem text_append (g x : Text) : r.text (g ++ x) = r.text g ++ r.inner x := by
  rw [text, text, inner_append, List.append_assoc]

/-- The front of a respaced text is the respaced front. -/
theorem take_text {t : Text} {n : Nat} (h : n ≤ t.length) :
    (r.text t).take (r.place t n) = r.text (t.take n) := by
  obtain ⟨g, x, rfl, rfl⟩ := exists_append h
  rw [place_append, text_append, List.take_left, List.take_left]

/-- The rest of a respaced text is the rest, respelled. -/
theorem drop_text {t : Text} {n : Nat} (h : n ≤ t.length) :
    (r.text t).drop (r.place t n) = r.inner (t.drop n) := by
  obtain ⟨g, x, rfl, rfl⟩ := exists_append h
  rw [place_append, text_append, List.drop_left, List.drop_left]

theorem length_text (t : Text) : (r.text t).length = r.place t t.length := by
  have h := place_append (r := r) t []
  rw [List.append_nil] at h
  exact h.symm

/-- The places inside a text do not depend on what follows it. -/
theorem place_take {t : Text} {a b : Nat} (h : a ≤ b) : r.place (t.take b) a = r.place t a := by
  rw [place, place, List.take_take, Nat.min_eq_left h]

/-- **A slice of the script** is a slice of the respaced script. -/
theorem slice_text (t : Text) (a : Nat) {b : Nat} (hb : b ≤ t.length) :
    (r.text t).slice (r.place t a) (r.place t b) = r.inner (t.slice a b) := by
  rw [slice, slice, take_text hb]
  rcases Nat.le_total a b with hab | hab
  · rw [← place_take hab, drop_text (by rw [List.length_take]; omega)]
  · have hle := (r.place_strictMono t).monotone hab
    have hlen : (r.text (t.take b)).length ≤ r.place t a := by
      rw [← take_text hb, List.length_take]
      omega
    rw [List.drop_of_length_le hlen, List.drop_of_length_le (by rw [List.length_take]; omega),
      inner_nil]

/-- **A stretch of a text** is respelled where it stands. -/
theorem within_text (t : Text) {s : Span} (h : s.stop ≤ t.length) :
    (r.text t).within (r.span t s) = r.inner (t.within s) :=
  slice_text t s.start h

/-- **The line of a place.** -/
theorem lineOf_text {t : Text} {n : Nat} (h : n ≤ t.length) :
    lineOf (r.text t) (r.place t n) = lineOf t n + r.front := by
  rw [lineOf, take_text h, text, List.count_append, count_head, count_inner, lineOf]
  omega

/-- The place of an offset is on the line that the line of the offset has become. -/
theorem lineNo_lineOf {t : Text} {n : Nat} (h : n ≤ t.length) :
    ((lineOf (r.text t) (r.place t n) : Nat) : Int) = r.lineNo (lineOf t n : Nat) := by
  have hpos : 0 < lineOf t n := Nat.succ_pos _
  rw [lineOf_text h, lineNo, if_neg (by omega)]
  push_cast
  rfl

/-! ## The mask -/

open Lexing

theorem Fits.of_append_right {a b : Text} (h : r.Fits (a ++ b)) : r.Fits b :=
  fun hr hmem => h hr (List.mem_append_right a hmem)

theorem Fits.tail {c : Char} {t : Text} (h : r.Fits (c :: t)) : r.Fits t :=
  h.of_append_right (a := [c])

/-- A line terminator ahead decides nothing. -/
theorem stepGround_terminator {x : Char} (hx : isTerminator x = true) (c : Char) (t : Text) :
    stepGround c (x :: t) = stepGround c [] := by
  rcases (by simpa [isTerminator] using hx : x = '\n' ∨ x = '\r') with rfl | rfl
  all_goals
    unfold stepGround
    split <;> simp_all

/-- The scanner does not tell the two characters that end a line apart when it looks ahead. -/
theorem stepInside_terminator {x y : Char} (hx : isTerminator x = true) (hy : isTerminator y = true)
    (mode : Mode) (c : Char) (t t' : Text) :
    stepInside mode c (x :: t) = stepInside mode c (y :: t') := by
  rcases (by simpa [isTerminator] using hx : x = '\n' ∨ x = '\r') with rfl | rfl
  all_goals
    rcases (by simpa [isTerminator] using hy : y = '\n' ∨ y = '\r') with rfl | rfl
    all_goals cases mode <;> simp [stepInside, guards, isTerminator]

/-- **The scanner looks ahead** past no line break, however it is spelled. -/
theorem step_inner (s : State) (c : Char) (t : Text) : step s c (r.inner t) = step s c t := by
  have hbreak : ∀ u : Text, ∃ x v, isTerminator x = true ∧ x ≠ '"' ∧ r.inner ('\n' :: u) = x :: v := by
    intro u
    rw [inner_cons_feed, lineEnd]
    split
    · exact ⟨'\r', _, rfl, by decide, rfl⟩
    · exact ⟨'\n', _, rfl, by decide, rfl⟩
  -- outside of tokens the scanner looks two characters ahead, inside of them one
  apply step_congr
  · match t with
    | [] => rfl
    | d :: t =>
      by_cases hd : d = '\n'
      · subst hd
        obtain ⟨x, v, hx, -, hinner⟩ := hbreak t
        rw [hinner, stepGround_terminator hx, stepGround_terminator rfl]
      · rw [inner_cons_of_ne hd]
        match t with
        | [] => rfl
        | e :: t =>
          by_cases he : e = '\n'
          · subst he
            obtain ⟨x, v, -, hx, hinner⟩ := hbreak t
            rw [hinner, stepGround_second hx, stepGround_second (by decide)]
          · rw [inner_cons_of_ne he, stepGround_take_two, stepGround_take_two c (d :: e :: t)]
            rfl
  · intro mode
    match t with
    | [] => rfl
    | d :: t =>
      by_cases hd : d = '\n'
      · subst hd
        obtain ⟨x, v, hx, -, hinner⟩ := hbreak t
        rw [hinner]
        exact stepInside_terminator hx rfl mode c v t
      · rw [inner_cons_of_ne hd, stepInside_take_one, stepInside_take_one mode c (d :: t)]
        rfl

/-- **Over a carriage return** in front of a line feed the scanner goes as over the line feed, and
shows both. -/
theorem maskFrom_return {s : State} {t : Text} (hs : Anchored s ('\n' :: t)) (u : Text) :
    maskFrom s ('\r' :: '\n' :: u) = '\r' :: '\n' :: maskFrom (step s '\n' t).2 u := by
  obtain ⟨mode, held⟩ := s
  cases held with
  | succ held =>
    have hheld := hs.held '\n' (by simp)
    cases hheld
  | zero =>
    have hend : mode ≠ .blockEnd := by
      rintro rfl
      have hslash := (hs.blockEnd rfl).2
      cases hslash
    cases mode with
    | ground | lineComment | blockComment | verbatim | quoted q => rfl
    | blockEnd => exact absurd rfl hend

/-- **Masking commutes with respelling**, from any state that the text can put the scanner into. -/
theorem maskFrom_inner {s : State} {t : Text} (hs : Anchored s t) (hfits : r.Fits t) :
    maskFrom s (r.inner t) = r.inner (maskFrom s t) := by
  induction t generalizing s with
  | nil => rfl
  | cons c t ih =>
    rw [maskFrom_cons]
    by_cases hc : c = '\n'
    · subst hc
      have hshown : shown (step s '\n' t).1 '\n' = '\n' :=
        (shown_eq_iff_of_isTerminator rfl).mpr rfl
      rw [hshown, inner_cons_feed, inner_cons_feed, ← ih hs.step hfits.tail]
      cases hr : r.returns with
      | true =>
        rw [lineEnd_of_returns hr]
        exact maskFrom_return hs (r.inner t)
      | false =>
        rw [lineEnd_of_not_returns hr, List.nil_append, List.nil_append, maskFrom_cons, step_inner,
          hshown]
    · have hshown : shown (step s c t).1 c ≠ '\n' := by
        rw [Ne, shown_eq_iff_of_isTerminator rfl]
        exact hc
      rw [inner_cons_of_ne hc, inner_cons_of_ne hshown, maskFrom_cons, step_inner,
        ih hs.step hfits.tail]

/-- What is put in front means nothing to the scanner. -/
theorem isInert_head : ∀ c ∈ r.head, isInert c = true := by
  intro c hc
  rcases mem_inner hc with hc | rfl
  · obtain rfl := List.eq_of_mem_replicate hc
    decide
  · decide

/-- **Masking and respacing commute.** -/
theorem mask_text {t : Text} (h : r.Fits t) : mask (r.text t) = r.text (mask t) := by
  rw [mask_eq_maskFrom, text, maskFrom_inert_append isInert_head, maskFrom_inner (anchored_ground t) h]
  rfl

/-- A mask has no line ends but those of its text. -/
theorem mem_of_mem_maskFrom {x : Char} (hx : isTerminator x = true) {s : State} {t : Text}
    (h : x ∈ maskFrom s t) : x ∈ t := by
  induction t generalizing s with
  | nil => cases h
  | cons c t ih =>
    rw [maskFrom_cons] at h
    rcases List.mem_cons.mp h with hc | h
    · rw [(shown_eq_iff_of_isTerminator hx).mp hc.symm]
      exact List.mem_cons_self
    · exact List.mem_cons_of_mem c (ih h)

theorem fits_mask {t : Text} (h : r.Fits t) : r.Fits (mask t) :=
  fun hr hmem => h hr (mem_of_mem_maskFrom rfl hmem)

/-- A script and its mask have the same places, since they have the same line feeds. -/
theorem place_mask (t : Text) : r.place (mask t) = r.place t :=
  place_congr (fun n => count_take_maskFrom .ground t n)

end Respacing

end ChartLint
