import ChartLint.Proofs.Lexing.Splice

/-!
# Masking line by line

A line feed is a settled character, so what the scanner reads up to the start of a line does not hang
on what follows it (`StartsLine.read_alike`). What it takes over to the line is its state, and of that
only one of three: outside of comments and literals, in a block comment, or in a verbatim literal
(`stateAfter_lineFeed`).

So a script may be masked in two parts where a line starts outside (`mask_eq_of_outside`), and where one
starts inside, text without closers may be put in front of it, which is blanked and leaves the rest of
the mask alone (`mask_insertAt_inside`). `mask_linewise` puts the cases together, with a test that tells
them apart: whether a letter at the start of the line is shown.
-/

namespace ChartLint.Lexing

section StartsLine

variable {code : Text} {offset : Nat} (hline : StartsLine code offset)

include hline

/-- Up to the start of a line the scanner reads alike, whatever follows. -/
theorem StartsLine.read_alike (s : State) (b b' : Text) :
    stateAfter s (code.take offset) b = stateAfter s (code.take offset) b'
      ∧ maskIn s (code.take offset) b = maskIn s (code.take offset) b' :=
  stateAfter_settled hline.settled s b b'

/-- **The lines in front** are masked as if nothing followed them. -/
theorem mask_take_line : (mask code).take offset = mask (code.take offset) := by
  have hfront := maskFrom_append .ground (code.take offset) []
  rw [List.append_nil, maskFrom_nil, List.append_nil] at hfront
  rw [mask_take, (hline.read_alike .ground _ []).2, mask_eq_maskFrom, hfront]

/-- **A script is masked in two parts** where a line starts outside of comments and literals. -/
theorem mask_eq_of_outside (hout : Outside code offset) :
    mask code = mask (code.take offset) ++ mask (code.drop offset) := by
  have hrest := mask_drop code offset
  rw [show stateAfter .ground _ _ = State.ground from hout, ← mask_eq_maskFrom] at hrest
  rw [← mask_take_line hline, ← hrest, List.take_append_drop]

/-- Other text may follow the lines in front without any change to where they end. -/
theorem outside_append_iff (b : Text) :
    Outside (code.take offset ++ b) offset ↔ Outside code offset := by
  have hlength : (code.take offset).length = offset := List.length_take_of_le hline.1
  have hstate := (hline.read_alike .ground b (code.drop offset)).1
  rw [Outside, Outside, List.take_left' hlength, List.drop_left' hlength, hstate]

/-- A letter at the start of the line is shown exactly if the line starts outside. -/
theorem outside_iff_shown :
    Outside code offset ↔ (mask (code.take offset ++ ['x'])).getLast? = some 'x' := by
  -- behind the lines the letter is masked from the state that they leave
  have hmask : mask (code.take offset ++ ['x']) = mask (code.take offset)
      ++ maskFrom (stateAfter .ground (code.take offset) (code.drop offset)) ['x'] := by
    obtain ⟨hstate, hfront⟩ := hline.read_alike .ground ['x'] (code.drop offset)
    rw [mask_eq_maskFrom, maskFrom_append, hstate, hfront, ← mask_take, mask_take_line hline]
  rw [hmask, List.getLast?_append]
  constructor
  · intro hout
    rw [show stateAfter .ground _ _ = State.ground from hout]
    rfl
  · intro hshown
    by_contra hin
    obtain ⟨mode, hmode, hafter⟩ := stateAfter_inside hline hin
    rw [hafter] at hshown
    rcases hmode with rfl | rfl <;> cases hshown

end StartsLine

/-- Behind complete lines a line starts. -/
theorem startsLine_append {a : Text} (ha : a = [] ∨ a.getLast? = some '\n') (b : Text) :
    StartsLine (a ++ b) a.length := by
  refine ⟨by simp, fun c hc => ?_⟩
  rw [List.take_left] at hc
  rcases ha with rfl | hfeed
  · cases hc
  · rw [hfeed] at hc
    exact (Option.some.inj hc).symm

/-- Complete lines leave no star for a slash that follows. -/
theorem unclosing_of_lines {t : Text} (hlast : t.getLast? = some '\n') (hquote : '"' ∉ t)
    (hclose : ¬ ['*', '/'] <:+: t) : Unclosing t where
  comment := hclose
  last := by rw [hlast]; decide
  literal := hquote

/-- **The mask goes line by line.** Let `a` be complete lines. Their mask is the front of the mask of
every text that they are the front of. If they end outside of comments and literals, or, what is the
same, if a letter behind them is shown, then the rest is masked on its own. If they end inside, further
complete lines that hold neither a double quote nor the end of a block comment may be put in between:
they are blanked there, and the mask is otherwise the same. -/
theorem mask_linewise (a b : Text) (ha : a = [] ∨ a.getLast? = some '\n') :
    (mask (a ++ b)).take a.length = mask a
      ∧ (Outside a a.length ↔ (mask (a ++ ['x'])).getLast? = some 'x')
      ∧ (Outside a a.length → mask (a ++ b) = mask a ++ mask b)
      ∧ (¬ Outside a a.length → ∀ t : Text, t.getLast? = some '\n' → '"' ∉ t →
          ¬ ['*', '/'] <:+: t →
          mask (a ++ t ++ b) = Text.insertAt (mask (a ++ b)) a.length (t.map blankOut)) := by
  have hline := startsLine_append ha b
  have hiff : Outside a a.length ↔ Outside (a ++ b) a.length := by
    have happend := outside_append_iff hline []
    rwa [List.take_left, List.append_nil] at happend
  refine ⟨?_, ?_, ?_, ?_⟩
  · rw [mask_take_line hline, List.take_left]
  · have hshown := outside_iff_shown hline
    rwa [List.take_left, ← hiff] at hshown
  · intro hout
    have hparts := mask_eq_of_outside hline (hiff.mp hout)
    rwa [List.take_left, List.drop_left] at hparts
  · intro hin t hlast hquote hclose
    have hinside : ¬ Outside (a ++ b) a.length := by rwa [← hiff]
    have hinsert := mask_insertAt_inside hline hinside (unclosing_of_lines hlast hquote hclose)
    simp only [Text.insertAt, Text.splice, List.take_left, List.drop_left] at hinsert ⊢
    exact hinsert

/-- Both cases at work: the lines of a block comment take up another line, and behind the end of the
comment the script goes on by itself. -/
theorem mask_linewise_blockComment :
    ("/*\n".toList.getLast? = some '\n' ∧ ¬ Outside "/*\n".toList 3
        ∧ "'*\n".toList.getLast? = some '\n' ∧ '"' ∉ "'*\n".toList
        ∧ ¬ ['*', '/'] <:+: "'*\n".toList
        ∧ mask ("/*\n".toList ++ "'*\n".toList ++ "*/i\n".toList)
          = Text.insertAt (mask ("/*\n".toList ++ "*/i\n".toList)) 3 ("'*\n".toList.map blankOut))
      ∧ ("i//\n".toList.getLast? = some '\n' ∧ Outside "i//\n".toList 4
        ∧ mask ("i//\n".toList ++ "*/i\n".toList) = mask "i//\n".toList ++ mask "*/i\n".toList) := by
  have hinside := mask_linewise "/*\n".toList "*/i\n".toList (.inr (by decide))
  have houtside := mask_linewise "i//\n".toList "*/i\n".toList (.inr (by decide))
  refine ⟨⟨by decide, by decide, by decide, by decide, by decide, ?_⟩, by decide, by decide, ?_⟩
  · exact hinside.2.2.2 (by decide) "'*\n".toList (by decide) (by decide) (by decide)
  · exact houtside.2.2.1 (by decide)

end ChartLint.Lexing
