import ChartLint.Proofs.Lexing.Splice
import ChartLint.Proofs.Text.Lines

/-!
# Offsets and lines

A line has a number, an offset at which it starts and a text. The lookups that a finding and a repair go
through (the line of an offset, the start of a line, the text of a line) are shown to speak of one and
the same cut: `HasLine t n start line` holds where a line starts at `start`, the line of that offset is
`n`, and `line` is what follows up to the next line feed (`hasLine_iff`).

From this everything else is read off. The offsets on a line are those from its start up to and with the
line feed that ends it (`HasLine.lineOf_eq`), every offset of the text lies on a line
(`exists_hasLine_of_le`), and the mask has its lines where the script has them (`HasLine.mask`).
-/

namespace ChartLint.Lexing

open Text

/-! ## Line starts -/

namespace StartsLine

variable {t : Text} {start : Nat} (h : StartsLine t start)

include h

/-- Nothing of a line stands in front of its start. -/
theorem lineFront : lineFront (t.take start) = [] :=
  lineFront_eq_nil h.2

theorem lineStart? : lineStart? t (lineOf t start) = some start := by
  have hlookup := lineStart?_append (t.take start) (t.drop start)
  rwa [List.take_append_drop, List.length_take_of_le h.1, h.lineFront] at hlookup

end StartsLine

/-- In front of an offset stands the front of its line, and in front of that the line starts. -/
theorem exists_startsLine (g x : Text) :
    ∃ start, StartsLine (g ++ x) start ∧ start ≤ g.length
      ∧ lineOf (g ++ x) start = lineOf (g ++ x) g.length
      ∧ (g ++ x).drop start = lineFront g ++ x := by
  obtain ⟨l, hl, hends⟩ := eq_append_lineFront g
  have hsplit : g ++ x = l ++ (lineFront g ++ x) := by
    rw [← List.append_assoc, ← hl]
  have hcount : g.count '\n' = l.count '\n' := by
    rw [hl, List.count_append, List.count_eq_zero_of_not_mem (not_mem_lineFront g), Nat.add_zero]
  refine ⟨l.length, ⟨?_, ?_⟩, ?_, ?_, ?_⟩
  · rw [hsplit, List.length_append]
    exact Nat.le_add_right _ _
  · rw [hsplit, List.take_left]
    exact hends
  · rw [hl, List.length_append]
    exact Nat.le_add_right _ _
  · rw [lineOf_append, hcount, hsplit, lineOf_append]
  · rw [hsplit, List.drop_left]

/-- The line of an offset starts where it is said to start. -/
theorem exists_startsLine_lineOf (t : Text) {offset : Nat} (h : offset ≤ t.length) :
    ∃ start, StartsLine t start ∧ Text.lineStart? t (lineOf t offset) = some start := by
  obtain ⟨start, hstart, -, hline, -⟩ := exists_startsLine (t.take offset) (t.drop offset)
  rw [List.take_append_drop, List.length_take_of_le h] at hline
  rw [List.take_append_drop] at hstart
  exact ⟨start, hstart, by rw [← hline, hstart.lineStart?]⟩

/-! ## Lines -/

/-- The text has a line with the number `n`, counted from one, that starts at `start` and reads
`line`. -/
structure HasLine (t : Text) (n start : Nat) (line : Text) : Prop where
  pos : 1 ≤ n
  start? : lineStart? t n = some start
  line? : (lines t)[n - 1]? = some line

/-- Where a line starts, all lookups find it. -/
theorem StartsLine.hasLine {t : Text} {start : Nat} (h : StartsLine t start) :
    HasLine t (lineOf t start) start (lineBack (t.drop start)) where
  pos := Nat.le_add_left 1 _
  start? := h.lineStart?
  line? := by
    have hline := getElem?_lines_lineOf (t.take start) (t.drop start)
    rwa [List.take_append_drop, List.length_take_of_le h.1, h.lineFront, List.nil_append] at hline

/-- Every line number of the text has a start. -/
theorem exists_lineStart {t : Text} {n : Nat} (hpos : 1 ≤ n) (hn : n ≤ (lines t).length) :
    ∃ start, StartsLine t start ∧ lineOf t start = n := by
  obtain ⟨g, x, rfl, rfl⟩ := exists_lineOf hpos hn
  obtain ⟨start, hstart, -, hline, -⟩ := exists_startsLine g x
  exact ⟨start, hstart, hline⟩

/-- **Lines are cuts.** The lookups for a line number agree on a cut of the text. -/
theorem hasLine_iff {t : Text} {n start : Nat} {line : Text} :
    HasLine t n start line
      ↔ StartsLine t start ∧ lineOf t start = n ∧ lineBack (t.drop start) = line := by
  constructor
  · intro h
    have hlt : n - 1 < (lines t).length := (List.getElem?_eq_some_iff.mp h.line?).1
    have hn : n ≤ (lines t).length := by omega
    obtain ⟨start', hstart, hline⟩ := exists_lineStart h.pos hn
    -- the cut that has this number is found by the same lookups
    have hfound := hstart.hasLine
    rw [hline] at hfound
    obtain rfl : start' = start := Option.some.inj (hfound.start?.symm.trans h.start?)
    exact ⟨hstart, hline, Option.some.inj (hfound.line?.symm.trans h.line?)⟩
  · rintro ⟨hstart, rfl, rfl⟩
    exact hstart.hasLine

/-- Every offset of the text lies on a line. -/
theorem exists_hasLine_of_le {t : Text} {offset : Nat} (h : offset ≤ t.length) :
    ∃ start line, HasLine t (lineOf t offset) start line ∧ start ≤ offset
      ∧ offset ≤ start + line.length := by
  obtain ⟨g, x, rfl, rfl⟩ := exists_append h
  obtain ⟨start, hstart, hle, hline, hdrop⟩ := exists_startsLine g x
  refine ⟨start, _, hasLine_iff.mpr ⟨hstart, hline, rfl⟩, hle, ?_⟩
  have hlength := congrArg List.length hdrop
  rw [List.length_drop, List.length_append, List.length_append] at hlength
  rw [hdrop, lineBack_append (not_mem_lineFront g), List.length_append]
  omega

namespace HasLine

variable {t : Text} {n start : Nat} {line : Text} (h : HasLine t n start line)

include h

/-- Behind its start the text reads the line. -/
theorem exists_append : ∃ g x, t = g ++ (line ++ x) ∧ g.length = start ∧ '\n' ∉ line := by
  obtain ⟨hstart, -, rfl⟩ := hasLine_iff.mp h
  obtain ⟨x, hx⟩ := lineBack_prefix (t.drop start)
  refine ⟨t.take start, x, ?_, List.length_take_of_le hstart.1, not_mem_lineBack _⟩
  rw [hx, List.take_append_drop]

/-- A line is what the text has between its start and its end. -/
theorem slice_eq : slice t start (start + line.length) = line := by
  obtain ⟨g, x, rfl, rfl, -⟩ := h.exists_append
  rw [slice_add, List.drop_left, List.take_left]

/-- **The offsets of a line** are those from its start up to its end. -/
theorem lineOf_eq {offset : Nat} (hle : start ≤ offset) (hlt : offset ≤ start + line.length) :
    lineOf t offset = n := by
  obtain ⟨-, hline, -⟩ := hasLine_iff.mp h
  obtain ⟨g, x, rfl, rfl, hfeed⟩ := h.exists_append
  obtain ⟨k, rfl⟩ := Nat.exists_eq_add_of_le hle
  have htake : (g ++ (line ++ x)).take (g.length + k) = g ++ line.take k := by
    rw [List.take_length_add_append, List.take_append_of_le_length (by omega)]
  -- what lies between the start and the offset is a part of the line
  have hnone : '\n' ∉ line.take k := fun hmem => hfeed (List.mem_of_mem_take hmem)
  rw [← hline, lineOf_append, lineOf, htake, List.count_append, List.count_eq_zero_of_not_mem hnone,
    Nat.add_zero]

/-- A line of later number starts later. -/
theorem start_lt {n' start' : Nat} {line' : Text} (h' : HasLine t n' start' line') (hlt : n < n') :
    start < start' := by
  obtain ⟨-, rfl, -⟩ := hasLine_iff.mp h
  obtain ⟨-, rfl, -⟩ := hasLine_iff.mp h'
  by_contra hge
  have hmono := lineOf_mono t (Nat.le_of_not_lt hge)
  omega

end HasLine

/-- **The mask has its lines where the script has them.** -/
theorem HasLine.mask {code line : Text} {n start : Nat} (h : HasLine code n start line) :
    ∃ masked, HasLine (mask code) n start masked ∧ masked.length = line.length := by
  obtain ⟨hstart, hline, -⟩ := hasLine_iff.mp h
  have hmasked : HasLine (Lexing.mask code) n start (lineBack ((Lexing.mask code).drop start)) :=
    hasLine_iff.mpr ⟨startsLine_mask.mpr hstart, by rw [lineOf_mask, hline], rfl⟩
  refine ⟨_, hmasked, ?_⟩
  have hlengths := congrArg (·[n - 1]?) (map_length_lines_maskFrom .ground code)
  simp only [← mask_eq_maskFrom, List.getElem?_map, h.line?, hmasked.line?, Option.map_some,
    Option.some.injEq] at hlengths
  exact hlengths

/-! ## Counting line feeds -/

/-- The line of an offset counts the line feeds in front of it. -/
theorem lineOf_eq_countP (t : Text) (offset : Nat) :
    lineOf t offset = (breaks t).countP (· < offset) + 1 := by
  rw [lineOf, Nat.add_right_cancel_iff]
  induction t generalizing offset with
  | nil => rw [List.take_nil]; rfl
  | cons c t ih =>
    cases offset with
    | zero => simp
    | succ offset =>
      have hrest : ((breaks t).map (· + 1)).countP (· < offset + 1) = (t.take offset).count '\n' := by
        rw [List.countP_map, ih]
        exact List.countP_congr (fun feed _ => by simp)
      have hbreaks : breaks (c :: t) = breaks [c] ++ (breaks t).map (· + 1) := breaks_append [c] t
      rw [hbreaks, List.countP_append, hrest, List.take_succ_cons, List.count_cons, Nat.add_comm]
      by_cases hc : c = '\n'
      · subst hc
        simp [breaks]
      · simp [breaks, hc]

/-- So it does for an integer; one in front of the text lies on the first line. -/
theorem lineOf_toNat (t : Text) (offset : Int) :
    lineOf t offset.toNat = (breaks t).countP (fun feed : Nat => (feed : Int) < offset) + 1 := by
  simp only [lineOf_eq_countP, Int.lt_toNat]

/-- **Offsets and lines are coherent.** Line by line a script and its mask read what they have between
the start of the line and its end, and the offsets there, both ends included, are the offsets of the
line. Every offset of the script lies on one line. The line of any integer counts the line feeds in
front of it, so it does not fall as the integer grows, and lines of later number start later. -/
theorem lines_coherent (code : Text) :
    let src := Source.ofCode code
    (∀ n, 1 ≤ n → n ≤ (lines src.code).length →
        ∃ start line masked, HasLine src.code n start line ∧ HasLine src.masked n start masked
          ∧ masked.length = line.length
          ∧ slice src.code start (start + line.length) = line
          ∧ slice src.masked start (start + line.length) = masked
          ∧ ∀ offset, start ≤ offset → offset ≤ start + line.length → lineOf src.code offset = n)
      ∧ (∀ offset, offset ≤ src.code.length →
          ∃! n, ∃ start line, HasLine src.code n start line ∧ start ≤ offset
            ∧ offset ≤ start + line.length)
      ∧ (∀ offset : Int, lineOf src.code offset.toNat
          = (breaks src.code).countP (fun feed : Nat => (feed : Int) < offset) + 1)
      ∧ (∀ i j : Int, i ≤ j → lineOf src.code i.toNat ≤ lineOf src.code j.toNat)
      ∧ ∀ n n', 1 ≤ n → n < n' → n' ≤ (lines src.code).length →
          ∃ start start', lineStart? src.code n = some start ∧ lineStart? src.code n' = some start'
            ∧ start < start' := by
  refine ⟨?_, ?_, lineOf_toNat code, ?_, ?_⟩
  · intro n hpos hn
    obtain ⟨start, hstart, rfl⟩ := exists_lineStart hpos hn
    obtain ⟨masked, hmasked, hlength⟩ := hstart.hasLine.mask
    refine ⟨start, _, masked, hstart.hasLine, hmasked, hlength, hstart.hasLine.slice_eq, ?_, ?_⟩
    · rw [← hlength]
      exact hmasked.slice_eq
    · intro offset hle hlt
      exact hstart.hasLine.lineOf_eq hle hlt
  · intro offset hoffset
    obtain ⟨start, line, hline, hle, hlt⟩ := exists_hasLine_of_le hoffset
    refine ⟨_, ⟨start, line, hline, hle, hlt⟩, ?_⟩
    rintro n ⟨start', line', hline', hle', hlt'⟩
    exact (hline'.lineOf_eq hle' hlt').symm
  · intro i j hij
    exact lineOf_mono code (Int.toNat_le_toNat hij)
  · intro n n' hpos hlt hn'
    obtain ⟨start, hstart, rfl⟩ := exists_lineStart hpos (Nat.le_trans (Nat.le_of_lt hlt) hn')
    obtain ⟨start', hstart', rfl⟩ := exists_lineStart (Nat.le_trans hpos (Nat.le_of_lt hlt)) hn'
    exact ⟨start, start', hstart.lineStart?, hstart'.lineStart?,
      hstart.hasLine.start_lt hstart'.hasLine hlt⟩

end ChartLint.Lexing
