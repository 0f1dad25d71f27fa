/-!
# Script text

A script is read as a list of code points, and every offset, length and span counts code points
from the left. A line ends at a line feed and at nothing else: a carriage return is an ordinary
character of its line.

The module holds the vocabulary that everything above it uses: slices, splices, lines, the line
of an offset and the offset of a line. Each operation is total; an offset past the end is clamped.
-/

namespace ChartLint

/-- Script text, one entry per code point. -/
abbrev Text := List Char

/-- A half-open range of offsets. -/
structure Span where
  start : Nat
  stop : Nat
deriving DecidableEq, Repr

namespace Text

/-! ## Slices and splices -/

/-- The characters from `start` up to, not including, `stop`, clamped to the text. -/
def slice (t : Text) (start stop : Nat) : Text :=
  (t.take stop).drop start

/-- The characters a span covers. -/
def within (t : Text) (s : Span) : Text :=
  slice t s.start s.stop

theorem slice_add (t : Text) (start n : Nat) : slice t start (start + n) = (t.drop start).take n :=
  List.take_drop.symm

theorem take_slice (t : Text) (start stop n : Nat) :
    (slice t start stop).take n = slice t start (min (start + n) stop) := by
  rw [slice, slice, List.take_drop, List.take_take]

theorem slice_add_one {t : Text} {start stop : Nat} {c : Char} (h : start ≤ stop)
    (hc : t[stop]? = some c) : slice t start (stop + 1) = slice t start stop ++ [c] := by
  obtain ⟨hlt, -⟩ := List.getElem?_eq_some_iff.mp hc
  rw [slice, List.take_add_one, hc, Option.toList_some, List.drop_append_of_le_length, slice]
  rw [List.length_take]
  omega

/-- Replaces the characters from `start` up to `stop` by `new`. -/
def splice (t : Text) (start stop : Nat) (new : Text) : Text :=
  t.take start ++ new ++ t.drop stop

/-- Puts `new` in front of the character at offset `pos`. -/
def insertAt (t : Text) (pos : Nat) (new : Text) : Text :=
  splice t pos pos new

theorem insertAt_eq (t : Text) (pos : Nat) (new : Text) :
    insertAt t pos new = t.take pos ++ (new ++ t.drop pos) :=
  List.append_assoc _ _ _

/-- What stands in front of the replaced stretch stays. -/
theorem take_splice {t : Text} {start n : Nat} (hn : n ≤ start) (hstart : start ≤ t.length)
    (stop : Nat) (new : Text) : (splice t start stop new).take n = t.take n := by
  rw [splice, List.append_assoc, List.take_append_of_le_length, List.take_take, Nat.min_eq_left hn]
  rwa [List.length_take_of_le hstart]

/-! ## Parts of a text -/

/-- Splits at every `sep`; the pieces are one more than the separators. -/
def split (sep : Char) : Text → List Text
  | [] => [[]]
  | c :: rest =>
    if c = sep then
      [] :: split sep rest
    else
      match split sep rest with
      | [] => [[c]]
      | piece :: pieces => (c :: piece) :: pieces

theorem split_ne_nil (sep : Char) (t : Text) : split sep t ≠ [] := by
  cases t with
  | nil => simp [split]
  | cons c rest =>
    rw [split]
    split
    · simp
    · split <;> simp

/-- The pieces of a split are one more than the separators. -/
theorem length_split (sep : Char) (t : Text) : (split sep t).length = t.count sep + 1 := by
  induction t with
  | nil => rfl
  | cons c rest ih =>
    rw [split]
    split
    · next h => simp [h, ih]
    · next h =>
      split
      · next hnil => exact absurd hnil (split_ne_nil sep rest)
      · next piece pieces hsplit =>
        rw [hsplit] at ih
        simpa [h] using ih

/-- Joining the pieces with the separator gives the text back. -/
theorem intercalate_split (sep : Char) (t : Text) : List.intercalate [sep] (split sep t) = t := by
  induction t with
  | nil => rfl
  | cons c rest ih =>
    rw [split]
    split
    · next h =>
      subst h
      obtain ⟨piece, pieces, hsplit⟩ := List.exists_cons_of_ne_nil (split_ne_nil c rest)
      rw [hsplit] at ih ⊢
      simpa [List.intercalate, List.intersperse] using ih
    · split
      · next hnil => exact absurd hnil (split_ne_nil sep rest)
      · next piece pieces hsplit =>
        rw [hsplit] at ih
        cases pieces with
        | nil => simpa [List.intercalate, List.intersperse] using ih
        | cons second others => simpa [List.intercalate, List.intersperse] using ih

/-- Whether `part` stands somewhere in the text. -/
def isPartOf (part : Text) : Text → Bool
  | [] => part.isEmpty
  | c :: rest => part.isPrefixOf (c :: rest) || isPartOf part rest

/-- The text in front of the first occurrence of `part`, or all of it when there is none. -/
def upTo (part : Text) : Text → Text
  | [] => []
  | c :: rest => if part.isPrefixOf (c :: rest) then [] else c :: upTo part rest

/-- One pass of `replaceAll`; `skip` counts the characters that the last replacement still
covers. -/
def replaceFrom (old new : Text) : Nat → Text → Text
  | _, [] => []
  | skip + 1, _ :: rest => replaceFrom old new skip rest
  | 0, c :: rest =>
    if old.isPrefixOf (c :: rest) then
      new ++ replaceFrom old new (old.length - 1) rest
    else
      c :: replaceFrom old new 0 rest

/-- Replaces every occurrence of `old`, taken from the left without overlap. The empty text
occurs in front of every character and at the end. -/
def replaceAll (old new t : Text) : Text :=
  if old.isEmpty then new ++ t.flatMap (fun c => c :: new) else replaceFrom old new 0 t

/-! ## Lines -/

/-- The lines of a text; a text without line feed is one line. -/
def lines (t : Text) : List Text :=
  split '\n' t

/-- Lines put together again with a line feed between two of them. -/
def joinLines (ls : List Text) : Text :=
  List.intercalate ['\n'] ls

theorem length_lines (t : Text) : (lines t).length = t.count '\n' + 1 :=
  length_split '\n' t

/-- A text is its lines, joined. -/
theorem joinLines_lines (t : Text) : joinLines (lines t) = t :=
  intercalate_split '\n' t

/-- The offsets of the line feeds, from the left. -/
def breaks (t : Text) : List Nat :=
  (t.zipIdx.filter (fun p => p.1 = '\n')).map (·.2)

@[simp]
theorem length_breaks (t : Text) : (breaks t).length = t.count '\n' := by
  have hcount : (List.filter (fun p : Char × Nat => p.1 = '\n') (List.zipIdx t)).length
      = (List.zipIdx t).countP (fun p => p.1 = '\n') := List.countP_eq_length_filter.symm
  have hfst : (List.zipIdx t).map (·.1) = t := by simp
  rw [breaks, List.length_map, hcount, List.count, ← congrArg (List.countP (· == '\n')) hfst,
    List.countP_map]
  congr 1

/-- The line of an offset, counted from one; a line feed belongs to the line it ends. -/
def lineOf (t : Text) (offset : Nat) : Nat :=
  (t.take offset).count '\n' + 1

/-- A later offset lies on no earlier line. -/
theorem lineOf_mono (t : Text) {i j : Nat} (h : i ≤ j) : lineOf t i ≤ lineOf t j :=
  Nat.succ_le_succ ((List.take_sublist_take_left h).count_le '\n')

/-- Every offset lies on a line of the text. -/
theorem lineOf_le_length_lines (t : Text) (offset : Nat) : lineOf t offset ≤ (lines t).length := by
  rw [length_lines]
  exact Nat.succ_le_succ ((List.take_sublist offset t).count_le '\n')

/-- The offset at which a line starts. A line number past the last line stands for the last one,
provided there is a line feed at all; without one there is no second line to start. -/
def lineStart? (t : Text) (line : Nat) : Option Nat :=
  if line ≤ 1 then
    some 0
  else
    let ends := breaks t
    (ends[min line (ends.length + 1) - 2]?).map (· + 1)

/-- The line of an offset has a start. -/
theorem exists_lineStart? (t : Text) (offset : Nat) :
    ∃ start, lineStart? t (lineOf t offset) = some start := by
  unfold lineStart?
  split
  · exact ⟨0, rfl⟩
  · next hline =>
    have hcount : (t.take offset).count '\n' ≤ t.count '\n' :=
      (List.take_sublist offset t).count_le '\n'
    have hpos : min (lineOf t offset) ((breaks t).length + 1) - 2 < (breaks t).length := by
      rw [length_breaks]
      rw [lineOf] at hline ⊢
      omega
    exact ⟨_, congrArg (Option.map (· + 1)) (List.getElem?_eq_getElem hpos)⟩

/-- The line break a text uses: carriage return and line feed once it holds such a pair. -/
def lineBreak (t : Text) : Text :=
  if isPartOf ['\r', '\n'] t then ['\r', '\n'] else ['\n']

/-- A carriage return or a line feed: what ends a line comment and an ordinary literal. -/
def isTerminator (c : Char) : Bool :=
  c == '\n' || c == '\r'

end Text

end ChartLint
