import ChartLint.Text.Basic
import Mathlib.Data.List.Basic

/-!
# Lines of a text

Where a text is cut in two, the line at the cut has its front in the one part and its back in the
other (`lines_append`). From this follow the two lookups that rules and repairs make for an offset:
the line that the offset lies on exists (`getElem?_lines_lineOf`), and that line starts where the
front of the line starts (`lineStart?_append`).
-/

namespace ChartLint.Text

/-! ## Lines of an append -/

/-- A text is split at a separator and then on either side of it. -/
theorem split_append_sep (sep : Char) (p q : Text) :
    split sep (p ++ sep :: q) = split sep p ++ split sep q := by
  induction p with
  | nil => simp [split]
  | cons c p ih =>
    rw [List.cons_append, split, split, ih]
    split
    · rfl
    · obtain ⟨piece, pieces, hsplit⟩ := List.exists_cons_of_ne_nil (split_ne_nil sep p)
      rw [hsplit]
      rfl

theorem split_of_not_mem {sep : Char} {t : Text} (h : sep ∉ t) : split sep t = [t] := by
  induction t with
  | nil => rfl
  | cons c t ih =>
    rw [List.mem_cons, not_or] at h
    rw [split, if_neg (Ne.symm h.1), ih h.2]

/-- A piece has no separator. -/
theorem not_mem_of_mem_split {sep : Char} {t piece : Text} (h : piece ∈ split sep t) :
    sep ∉ piece := by
  induction t generalizing piece with
  | nil =>
    obtain rfl : piece = [] := by simpa [split] using h
    exact List.not_mem_nil
  | cons c t ih =>
    obtain ⟨first, others, hsplit⟩ := List.exists_cons_of_ne_nil (split_ne_nil sep t)
    rw [split, hsplit] at h
    rw [hsplit] at ih
    split at h
    · rcases List.mem_cons.mp h with rfl | h
      · exact List.not_mem_nil
      · exact ih h
    · next hc =>
      rcases List.mem_cons.mp h with rfl | h
      · simpa [Ne.symm hc] using ih List.mem_cons_self
      · exact ih (List.mem_cons_of_mem first h)

/-- Pieces that have no separator are found again when they are joined with it. -/
theorem split_intercalate {sep : Char} {pieces : List Text} (hne : pieces ≠ [])
    (h : ∀ piece ∈ pieces, sep ∉ piece) : split sep (List.intercalate [sep] pieces) = pieces := by
  induction pieces with
  | nil => exact absurd rfl hne
  | cons piece pieces ih =>
    have hpiece := split_of_not_mem (h piece List.mem_cons_self)
    cases pieces with
    | nil => rw [List.intercalate_singleton, hpiece]
    | cons second others =>
      rw [List.intercalate_cons_cons, List.append_assoc, List.singleton_append, split_append_sep,
        hpiece, ih (by simp) (fun p hp => h p (List.mem_cons_of_mem _ hp))]
      rfl

theorem lines_append_feed (p q : Text) : lines (p ++ '\n' :: q) = lines p ++ lines q :=
  split_append_sep '\n' p q

theorem joinLines_cons {l : Text} {ls : List Text} (h : ls ≠ []) :
    joinLines (l :: ls) = l ++ '\n' :: joinLines ls := by
  obtain ⟨k, ks, rfl⟩ := List.exists_cons_of_ne_nil h
  simp [joinLines, List.intercalate, List.intersperse]

/-- Between two lists of lines stands a line feed. -/
theorem joinLines_append {ls ls' : List Text} (h : ls ≠ []) (h' : ls' ≠ []) :
    joinLines (ls ++ ls') = joinLines ls ++ '\n' :: joinLines ls' := by
  induction ls with
  | nil => exact absurd rfl h
  | cons l ls ih =>
    rw [List.cons_append]
    cases ls with
    | nil => rw [List.nil_append, joinLines_cons h', joinLines, joinLines, List.intercalate_singleton]
    | cons k ks =>
      rw [joinLines_cons (List.append_ne_nil_of_right_ne_nil _ h'), ih (List.cons_ne_nil k ks),
        joinLines_cons (List.cons_ne_nil k ks), List.append_assoc, List.cons_append]

/-- A stretch of lines stands in the joined lines. -/
theorem isInfix_joinLines {stretch ls : List Text} (h : stretch <:+: ls) :
    joinLines stretch <:+: joinLines ls := by
  obtain ⟨front, back, rfl⟩ := h
  by_cases hstretch : stretch = []
  · rw [hstretch]
    exact List.nil_infix
  have hfront : joinLines stretch <:+ joinLines (front ++ stretch) := by
    by_cases hnil : front = []
    · simp [hnil]
    · rw [joinLines_append hnil hstretch]
      exact ⟨joinLines front ++ ['\n'], by rw [List.append_assoc]; rfl⟩
  have hback : joinLines (front ++ stretch) <+: joinLines (front ++ stretch ++ back) := by
    by_cases hnil : back = []
    · simp [hnil]
    · rw [joinLines_append (by simp [hstretch]) hnil]
      exact List.prefix_append _ _
  exact hfront.isInfix.trans hback.isInfix

/-- What a text has behind its last line feed. -/
def lineFront (g : Text) : Text :=
  (lines g).getLastD []

/-- What a text has in front of its first line feed. -/
def lineBack (x : Text) : Text :=
  (lines x).headD []

/-- The complete lines at the front of a text, the last one first. -/
def above (g : Text) : List Text :=
  (lines g).dropLast.reverse

/-- The lines of a text are those above its last one, and that one. -/
theorem lines_eq_above (g : Text) : lines g = (above g).reverse ++ [lineFront g] := by
  have hne : lines g ≠ [] := split_ne_nil '\n' g
  rw [above, List.reverse_reverse, lineFront, List.getLastD_eq_getLast?,
    List.getLast?_eq_some_getLast hne]
  exact (List.dropLast_append_getLast hne).symm

/-- The first line of a text is what stands in front of its first line feed. -/
theorem lines_eq_lineBack (x : Text) : lines x = lineBack x :: (lines x).tail := by
  obtain ⟨first, others, hsplit⟩ := List.exists_cons_of_ne_nil (split_ne_nil '\n' x)
  rw [lineBack, lines, hsplit]
  rfl

theorem lineBack_mem_lines (x : Text) : lineBack x ∈ lines x := by
  rw [lines_eq_lineBack]
  exact List.mem_cons_self

theorem length_above (g : Text) : (above g).length = g.count '\n' := by
  rw [above, List.length_reverse, List.length_dropLast, length_lines, Nat.add_sub_cancel]

@[simp]
theorem lineFront_append_feed (p q : Text) : lineFront (p ++ '\n' :: q) = lineFront q := by
  rw [lineFront, lines_append_feed, lines_eq_above q, ← List.append_assoc]
  simp

/-- The last line in front of a line feed is complete. -/
theorem above_append_feed (p q : Text) :
    above (p ++ '\n' :: q) = above q ++ lineFront p :: above p := by
  rw [above, lines_append_feed, lines_eq_above q, ← List.append_assoc, List.dropLast_concat,
    List.reverse_append, List.reverse_reverse, lines_eq_above p, List.reverse_append,
    List.reverse_reverse]
  rfl

@[simp]
theorem lineBack_append_feed (p q : Text) : lineBack (p ++ '\n' :: q) = lineBack p := by
  rw [lineBack, lines_append_feed, lines_eq_lineBack p]
  rfl

theorem lines_of_not_mem {u : Text} (hu : '\n' ∉ u) : lines u = [u] :=
  split_of_not_mem hu

theorem lineFront_of_not_mem {u : Text} (hu : '\n' ∉ u) : lineFront u = u := by
  rw [lineFront, lines_of_not_mem hu]
  rfl

theorem lineBack_of_not_mem {u : Text} (hu : '\n' ∉ u) : lineBack u = u := by
  rw [lineBack, lines_of_not_mem hu]
  rfl

theorem above_of_not_mem {u : Text} (hu : '\n' ∉ u) : above u = [] := by
  rw [above, lines_of_not_mem hu]
  rfl

/-- A text with a line feed has a last one. -/
theorem exists_last_feed {g : Text} (h : '\n' ∈ g) : ∃ p q, g = p ++ '\n' :: q ∧ '\n' ∉ q := by
  obtain ⟨q, p, hsplit, hq⟩ := List.eq_append_cons_of_mem (List.mem_reverse.mpr h)
  refine ⟨p.reverse, q.reverse, ?_, by simpa using hq⟩
  rw [← List.reverse_reverse g, hsplit]
  simp

/-- **The lines of an append:** the line at the seam has its front in the one text and its back in
the other. -/
theorem lines_append (g x : Text) :
    lines (g ++ x) = (above g).reverse ++ (lineFront g ++ lineBack x) :: (lines x).tail := by
  have hline : ∀ u : Text, '\n' ∉ u → lines (u ++ x) = (u ++ lineBack x) :: (lines x).tail := by
    intro u hu
    by_cases hx : '\n' ∈ x
    · obtain ⟨y, z, rfl, hy⟩ := List.eq_append_cons_of_mem hx
      have huy : '\n' ∉ u ++ y := by simp [hu, hy]
      rw [← List.append_assoc, lines_append_feed, lineBack_append_feed, lines_append_feed,
        lineBack_of_not_mem hy, lines_of_not_mem huy, lines_of_not_mem hy]
      rfl
    · have hux : '\n' ∉ u ++ x := by simp [hu, hx]
      rw [lineBack_of_not_mem hx, lines_of_not_mem hux, lines_of_not_mem hx]
      rfl
  by_cases hg : '\n' ∈ g
  · obtain ⟨p, q, rfl, hq⟩ := exists_last_feed hg
    rw [List.append_assoc, List.cons_append, lines_append_feed, hline q hq, lineFront_append_feed,
      above_append_feed, List.reverse_append, List.reverse_cons, ← lines_eq_above,
      above_of_not_mem hq, lineFront_of_not_mem hq]
    simp
  · rw [hline g hg, above_of_not_mem hg, lineFront_of_not_mem hg]
    rfl

/-- Text without line feeds belongs to the last line. -/
theorem lineFront_append (y : Text) {u : Text} (hu : '\n' ∉ u) :
    lineFront (y ++ u) = lineFront y ++ u := by
  rw [lineFront, lines_append, lines_of_not_mem hu, lineBack_of_not_mem hu]
  simp

theorem lineBack_append {u : Text} (hu : '\n' ∉ u) (x : Text) :
    lineBack (u ++ x) = u ++ lineBack x := by
  rw [lineBack, lines_append, above_of_not_mem hu, lineFront_of_not_mem hu]
  rfl

/-- Text without line feeds makes no line complete. -/
theorem above_append (y : Text) {u : Text} (hu : '\n' ∉ u) : above (y ++ u) = above y := by
  rw [above, lines_append, lines_of_not_mem hu]
  simp

/-- Behind a line feed a new line starts. -/
theorem lineFront_eq_nil {g : Text} (h : ∀ c, g.getLast? = some c → c = '\n') :
    lineFront g = [] := by
  rcases List.eq_nil_or_concat g with rfl | ⟨p, c, rfl⟩
  · rfl
  · obtain rfl : c = '\n' := h c (by simp)
    rw [List.concat_eq_append, lineFront_append_feed]
    rfl

theorem not_mem_lineFront (g : Text) : '\n' ∉ lineFront g := by
  by_cases hg : '\n' ∈ g
  · obtain ⟨p, q, rfl, hq⟩ := exists_last_feed hg
    rw [lineFront_append_feed, lineFront_of_not_mem hq]
    exact hq
  · rw [lineFront_of_not_mem hg]
    exact hg

/-- A text is complete lines and the front of another one. -/
theorem eq_append_lineFront (g : Text) :
    ∃ l, g = l ++ lineFront g ∧ ∀ c, l.getLast? = some c → c = '\n' := by
  by_cases hg : '\n' ∈ g
  · obtain ⟨p, q, rfl, hq⟩ := exists_last_feed hg
    refine ⟨p ++ ['\n'], ?_, ?_⟩
    · rw [lineFront_append_feed, lineFront_of_not_mem hq]
      simp
    · intro c hc
      simpa using hc.symm
  · exact ⟨[], by rw [lineFront_of_not_mem hg, List.nil_append], by simp⟩

theorem lines_cons_feed (t : Text) : lines ('\n' :: t) = [] :: lines t :=
  lines_append_feed [] t

/-- A character that is no line feed goes to the first line. -/
theorem lines_cons_of_ne {c : Char} (hc : c ≠ '\n') (t : Text) :
    lines (c :: t) = (c :: lineBack t) :: (lines t).tail := by
  have hfeed : '\n' ∉ [c] := by simpa using hc.symm
  have hlines := lines_append [c] t
  rw [above_of_not_mem hfeed, lineFront_of_not_mem hfeed] at hlines
  exact hlines

/-- A line is a part of its text. -/
theorem mem_of_mem_lines {t l : Text} (hl : l ∈ lines t) {c : Char} (hc : c ∈ l) : c ∈ t := by
  induction t generalizing l with
  | nil =>
    obtain rfl : l = [] := by simpa [lines, split] using hl
    cases hc
  | cons x t ih =>
    by_cases hx : x = '\n'
    · rw [hx, lines_cons_feed] at hl
      rcases List.mem_cons.mp hl with rfl | hl
      · cases hc
      · exact List.mem_cons_of_mem x (ih hl hc)
    · rw [lines_cons_of_ne hx] at hl
      rcases List.mem_cons.mp hl with rfl | hl
      · rcases List.mem_cons.mp hc with rfl | hc
        · exact List.mem_cons_self
        · exact List.mem_cons_of_mem x (ih (lineBack_mem_lines t) hc)
      · exact List.mem_cons_of_mem x (ih (List.mem_of_mem_tail hl) hc)

/-- A line has no line feed. -/
theorem not_mem_of_mem_lines {t l : Text} (hl : l ∈ lines t) : '\n' ∉ l :=
  not_mem_of_mem_split hl

theorem not_mem_lineBack (x : Text) : '\n' ∉ lineBack x :=
  not_mem_of_mem_lines (lineBack_mem_lines x)

/-- A text starts with its first line. -/
theorem lineBack_prefix (x : Text) : lineBack x <+: x := by
  by_cases hx : '\n' ∈ x
  · obtain ⟨y, z, rfl, hy⟩ := List.eq_append_cons_of_mem hx
    rw [lineBack_append_feed, lineBack_of_not_mem hy]
    exact List.prefix_append y _
  · exact ⟨[], by rw [lineBack_of_not_mem hx, List.append_nil]⟩

/-! ## Lookups for an offset -/

/-- An offset cuts the text in two. -/
theorem exists_append {t : Text} {n : Nat} (h : n ≤ t.length) :
    ∃ g x, t = g ++ x ∧ g.length = n :=
  ⟨t.take n, t.drop n, (List.take_append_drop n t).symm, List.length_take_of_le h⟩

/-- An offset is on the line after as many as are complete in front of it. -/
@[simp]
theorem lineOf_append (g x : Text) : lineOf (g ++ x) g.length = g.count '\n' + 1 := by
  rw [lineOf, List.take_left]

/-- Every line has an offset on it. -/
theorem exists_lineOf {t : Text} {line : Nat} (hpos : 1 ≤ line) (hline : line ≤ (lines t).length) :
    ∃ g x, t = g ++ x ∧ lineOf t g.length = line := by
  have hsplit : ∀ (t : Text) (n : Nat), n ≤ t.count '\n' → ∃ g x, t = g ++ x ∧ g.count '\n' = n := by
    intro t
    induction t with
    | nil => exact fun n hn => ⟨[], [], rfl, by simpa using (Nat.le_zero.mp hn).symm⟩
    | cons c t ih =>
      intro n hn
      cases n with
      | zero => exact ⟨[], c :: t, rfl, rfl⟩
      | succ n =>
        by_cases hc : c = '\n'
        · subst hc
          obtain ⟨g, x, rfl, hg⟩ := ih n (by simpa using hn)
          exact ⟨'\n' :: g, x, rfl, by simp [hg]⟩
        · rw [List.count_cons_of_ne hc] at hn
          obtain ⟨g, x, rfl, hg⟩ := ih (n + 1) hn
          exact ⟨c :: g, x, rfl, by rw [List.count_cons_of_ne hc, hg]⟩
  rw [length_lines] at hline
  obtain ⟨g, x, rfl, hg⟩ := hsplit t (line - 1) (by omega)
  exact ⟨g, x, rfl, by rw [lineOf_append, hg]; omega⟩

/-- **The line of an offset exists.** -/
theorem getElem?_lines_lineOf (g x : Text) :
    (lines (g ++ x))[lineOf (g ++ x) g.length - 1]? = some (lineFront g ++ lineBack x) := by
  have hline : lineOf (g ++ x) g.length - 1 = (above g).reverse.length := by
    rw [lineOf_append, List.length_reverse, length_above, Nat.add_sub_cancel]
  rw [hline, lines_append, List.getElem?_append_right (Nat.le_refl _), Nat.sub_self,
    List.getElem?_cons_zero]

/-- The line feeds of two pieces, those of the second one moved behind the first. -/
theorem breaks_append (g x : Text) :
    breaks (g ++ x) = breaks g ++ (breaks x).map (· + g.length) := by
  have hshift : (List.zipIdx x g.length) = (List.zipIdx x).map (fun p => (p.1, p.2 + g.length)) := by
    rw [List.zipIdx_eq_map_add]
    exact List.map_congr_left (fun p _ => by rw [Nat.add_comm])
  rw [breaks, breaks, breaks, List.zipIdx_append, List.filter_append, List.map_append, Nat.zero_add,
    hshift, List.filter_map, List.map_map, List.map_map]
  rfl

theorem breaks_cons_feed (x : Text) : breaks ('\n' :: x) = 0 :: (breaks x).map (· + 1) :=
  breaks_append ['\n'] x

/-- **The line of an offset starts** where the front of the line starts. -/
theorem lineStart?_append (g x : Text) :
    lineStart? (g ++ x) (lineOf (g ++ x) g.length) = some (g.length - (lineFront g).length) := by
  by_cases hg : '\n' ∈ g
  · obtain ⟨p, q, rfl, hq⟩ := exists_last_feed hg
    have hcount : (p ++ '\n' :: q).count '\n' = p.count '\n' + 1 := by
      simp [List.count_eq_zero_of_not_mem hq]
    have hends : breaks (p ++ '\n' :: q ++ x)
        = breaks p ++ p.length :: ((breaks (q ++ x)).map (· + 1)).map (· + p.length) := by
      rw [List.append_assoc, List.cons_append, breaks_append, breaks_cons_feed]
      simp
    have hlen : (breaks (p ++ '\n' :: q ++ x)).length = p.count '\n' + 1 + (q ++ x).count '\n' := by
      rw [hends]
      simp
      omega
    have hindex : min (p.count '\n' + 1 + 1) ((breaks (p ++ '\n' :: q ++ x)).length + 1) - 2
        = (breaks p).length := by
      rw [hlen, length_breaks]
      omega
    rw [lineOf_append, hcount, lineStart?, if_neg (by omega)]
    simp only [hindex]
    rw [hends, List.getElem?_append_right (Nat.le_refl _), Nat.sub_self, List.getElem?_cons_zero,
      lineFront_append_feed, lineFront_of_not_mem hq, Option.map_some, List.length_append,
      List.length_cons]
    congr 1
    omega
  · rw [lineOf_append, List.count_eq_zero_of_not_mem hg, lineStart?, if_pos (by omega),
      lineFront_of_not_mem hg, Nat.sub_self]

end ChartLint.Text
