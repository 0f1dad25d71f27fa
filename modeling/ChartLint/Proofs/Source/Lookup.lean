import ChartLint.Source.Basic
import ChartLint.Proofs.Lexing.Layout
import ChartLint.Proofs.Pattern.Seam
import ChartLint.Proofs.Text.Lines

/-!
# What lookups find

Where a text is cut in two, the lookups for the line at the cut find the line that has its front in the
one part and its back in the other (`lineAt_append`), the complete lines of the first part above it
(`linesAbove_append`), and the place where its front starts (`lineStart_append`). The place at which a
match starts has a character, in the script and in its mask (`inToken_of_mem_findAll`).
-/

namespace ChartLint

/-! ## Lines -/

namespace Text

/-- The line between `g` and `x`. -/
def ownLine (g x : Text) : Text :=
  lineFront g ++ lineBack x

theorem not_mem_ownLine (g x : Text) : '\n' ∉ ownLine g x := by
  intro hmem
  rcases List.mem_append.mp hmem with hmem | hmem
  · exact not_mem_lineFront g hmem
  · exact not_mem_lineBack x hmem

theorem mem_of_mem_ownLine {g x : Text} {c : Char} (hc : c ∈ ownLine g x) : c ∈ g ++ x := by
  refine mem_of_mem_lines (l := ownLine g x) ?_ hc
  rw [lines_append]
  exact List.mem_append_right _ List.mem_cons_self

theorem mem_of_mem_above {g l : Text} (h : l ∈ above g) {c : Char} (hc : c ∈ l) : c ∈ g :=
  mem_of_mem_lines (List.dropLast_subset _ (List.mem_reverse.mp h)) hc

end Text

namespace Source

open Text Pattern

theorem lineOf_sub_one (g x : Text) : lineOf (g ++ x) g.length - 1 = (above g).reverse.length := by
  rw [lineOf_append, List.length_reverse, length_above, Nat.add_sub_cancel]

/-- **The line at a cut.** -/
theorem lineAt_append (g x : Text) :
    lineAt (lines (g ++ x)) (lineOf (g ++ x) g.length) = .ok (ownLine g x) :=
  lineAt_eq (getElem?_lines_lineOf g x)

/-- **The lines above a cut.** -/
theorem linesAbove_append (g x : Text) (depth : Nat) :
    linesAbove (lines (g ++ x)) (lineOf (g ++ x) g.length) depth = .ok ((above g).take depth) := by
  rw [linesAbove_eq (lineOf_le_length_lines _ _), lineOf_sub_one, lines_append, List.take_left,
    List.reverse_reverse]

/-- **The start of the line at a cut.** -/
theorem lineStart_append (g x : Text) :
    lineStart (g ++ x) (lineOf (g ++ x) g.length) = .ok (g.length - (lineFront g).length) := by
  rw [lineStart, lineStart?_append]

/-! ## Characters -/

theorem length_masked (src : Source) : src.masked.length = src.code.length := by
  rw [src.masked_eq, Lexing.length_mask]

/-- Whether the character at an offset looks different in the mask. -/
def isBlanked (src : Source) (offset : Nat) : Bool :=
  src.masked[offset]? != src.code[offset]?

/-- Where a script has a character, its mask has one too, and the two are compared. -/
theorem inToken_eq {src : Source} {offset : Nat} (h : offset < src.code.length) :
    src.inToken offset = .ok (src.isBlanked offset) := by
  have hmasked : offset < src.masked.length := by rwa [length_masked]
  have hshown := List.getElem?_eq_getElem hmasked
  have hwritten := List.getElem?_eq_getElem h
  rw [inToken, charAt_eq hshown, charAt_eq hwritten, isBlanked, hshown, hwritten]
  rfl

end Source

/-- A match that covers something starts at a character. -/
theorem Pattern.Cuts.start_lt {p : Pattern} (hp : p.Consumes) {x : Option Char} {pos : Nat} {t : Text}
    {ms : List Match} (h : p.Cuts x pos t ms) : ∀ m ∈ ms, m.start < pos + t.length := by
  induction h with
  | done => exact fun m hm => absurd hm List.not_mem_nil
  | @next x pos g w r m ms before covers chosen stop others ih =>
    intro m' hm'
    rw [List.length_append, List.length_append]
    rcases List.mem_cons.mp hm' with rfl | hlater
    · obtain ⟨-, -, -, -, hstart, -⟩ := accepts_of_matchAt? chosen
      have hw : 0 < w.length := by
        refine List.length_pos_iff.mpr ?_
        rintro rfl
        exact hp _ _ covers
      omega
    · have hlt := ih m' hlater
      omega

theorem Pattern.start_lt_of_mem_findAll {p : Pattern} (hp : p.mayBeEmpty = false) {t : Text} {m : Match}
    (hm : m ∈ p.findAll t) : m.start < t.length := by
  have hconsumes := consumes_of_mayBeEmpty hp
  simpa using (cuts_findAll hconsumes t).start_lt hconsumes m hm

/-- **The place of a match** has a character in the script and in its mask. -/
theorem Source.inToken_of_mem_findAll {p : Pattern} (hp : p.mayBeEmpty = false) {src : Source} {m : Match}
    (hm : m ∈ p.findAll src.code) : src.inToken m.start = .ok (src.isBlanked m.start) :=
  inToken_eq (Pattern.start_lt_of_mem_findAll hp hm)

end ChartLint
