import ChartLint.Fault

/-!
# Lookups

A line is looked up by its number, a character by its offset, and neither need be there: a lookup
answers or fails, and nothing stands in for what is missing. For the line of an offset the lookups
answer (`exists_lineAt`, `exists_lineStart`), and so do those of the lines above it
(`linesAbove_eq`).
-/

namespace ChartLint.Source

open Text

/-- The line with a number, counted from one. -/
def lineAt (ls : List Text) (line : Nat) : Except Fault Text :=
  match ls[line - 1]? with
  | some l => .ok l
  | none => .error .noSuchLine

/-- The lines above a line, the nearest first, at most `depth` of them. -/
def linesAbove (ls : List Text) (line depth : Nat) : Except Fault (List Text) :=
  (List.range (min depth (line - 1))).mapM (fun n => lineAt ls (line - 1 - n))

/-- The offset at which a line starts. -/
def lineStart (t : Text) (line : Nat) : Except Fault Nat :=
  match lineStart? t line with
  | some start => .ok start
  | none => .error .noSuchLine

/-- The character at an offset. -/
def charAt (t : Text) (offset : Nat) : Except Fault Char :=
  match t[offset]? with
  | some c => .ok c
  | none => .error .noSuchCharacter

theorem lineAt_eq {ls : List Text} {line : Nat} {l : Text} (h : ls[line - 1]? = some l) :
    lineAt ls line = .ok l := by
  rw [lineAt, h]

theorem charAt_eq {t : Text} {offset : Nat} {c : Char} (h : t[offset]? = some c) :
    charAt t offset = .ok c := by
  rw [charAt, h]

/-- The line of an offset is there, also in a text with as many lines. -/
theorem exists_lineAt {t u : Text} (h : (lines u).length = (lines t).length) (offset : Nat) :
    ∃ l, lineAt (lines u) (lineOf t offset) = .ok l := by
  have hline := lineOf_le_length_lines t offset
  have hpos : lineOf t offset - 1 < (lines u).length := by
    rw [lineOf] at hline ⊢
    omega
  exact ⟨_, lineAt_eq (List.getElem?_eq_getElem hpos)⟩

/-- **The lines above a line** are there if the line is. -/
theorem linesAbove_eq {ls : List Text} {line : Nat} (h : line ≤ ls.length) (depth : Nat) :
    linesAbove ls line depth = .ok ((ls.take (line - 1)).reverse.take depth) := by
  have hlength : (ls.take (line - 1)).length = line - 1 := by
    rw [List.length_take]
    omega
  have hplace : ∀ n, n < min depth (line - 1) →
      ((ls.take (line - 1)).reverse.take depth)[n]? = ls[line - 1 - n - 1]? := by
    intro n hn
    rw [List.getElem?_take, if_pos (by omega), List.getElem?_reverse (by omega), hlength,
      List.getElem?_take, if_pos (by omega)]
    congr 1
    omega
  refine mapM_eq_ok ?_ (fun {n x l} hx hl => ?_)
  · rw [List.length_range, List.length_take, List.length_reverse, hlength]
  · obtain ⟨hn, rfl⟩ := List.getElem?_eq_some_iff.mp hx
    rw [List.length_range] at hn
    rw [List.getElem_range]
    exact lineAt_eq ((hplace n hn).symm.trans hl)

/-- The line of an offset has a start. -/
theorem exists_lineStart (t : Text) (offset : Nat) :
    ∃ start, lineStart t (lineOf t offset) = .ok start := by
  obtain ⟨start, hstart⟩ := exists_lineStart? t offset
  exact ⟨start, by rw [lineStart, hstart]⟩

end ChartLint.Source
