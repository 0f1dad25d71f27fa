import ChartLint.Text.Word

/-!
# Patterns

A pattern describes a shape of script text. It is data, so that a fact about all patterns is one
induction, and its meaning is the function `Pattern.ends`: all the ways in which the pattern can
match from a place in the text, **the preferred way first**. A search takes the head of that list.

Preference is what the two kinds of repetition differ in: the eager one prefers the longest run,
the reluctant one the shortest. Of two alternatives the left one is preferred.
-/

namespace ChartLint

/-- A part of a match that the caller asks back. -/
inductive Slot where
  /-- What the matched construct is about: the identifier it declares or the text it carries. -/
  | name
  /-- What kind of construct it is: its type, its base class, the method called. -/
  | kind
deriving DecidableEq, Repr

/-- A place in a text: its offset, the character in front of it, and the text that follows. -/
structure Cursor where
  pos : Nat
  before : Option Char
  rest : Text

/-- The way a pattern went: where it ended and the parts it kept. -/
structure Ending where
  here : Cursor
  kept : List (Slot × Span)

/-- Which run of a repetition is preferred. -/
inductive Greed where
  | eager
  | reluctant
deriving DecidableEq, Repr

/-- A shape of script text. -/
inductive Pattern where
  /-- The empty text. -/
  | empty
  /-- One character of a class. -/
  | one (cls : Char → Bool)
  /-- Any number of characters of a class. -/
  | run (greed : Greed) (cls : Char → Bool)
  /-- One pattern after the other. -/
  | seq (p q : Pattern)
  /-- The first pattern or, if that leads nowhere, the second. -/
  | alt (p q : Pattern)
  /-- As many repetitions as possible, each of which takes at least one character. -/
  | star (p : Pattern)
  /-- Keeps what the pattern covers under a slot. -/
  | keep (slot : Slot) (p : Pattern)
  /-- Between a word character and another character or the end of the text. -/
  | edge
  /-- Not directly behind a character of a class. -/
  | notAfter (cls : Char → Bool)
  /-- In front of the pattern, which is not consumed. -/
  | ahead (p : Pattern)
  /-- At the start of the text. -/
  | textStart
  /-- At the start of a line. -/
  | lineStart
  /-- At the end of the text or in front of a line feed that ends it. -/
  | textEnd

namespace Cursor

/-- The place at an offset of a text. -/
def ofOffset (t : Text) (pos : Nat) : Cursor where
  pos := pos
  before := if pos = 0 then none else t[pos - 1]?
  rest := t.drop pos

/-- Whether the character in front of the place is in a class. -/
def isAfter (cls : Char → Bool) (c : Cursor) : Bool :=
  c.before.any cls

/-- Whether the character behind the place is in a class. -/
def isBefore (cls : Char → Bool) (c : Cursor) : Bool :=
  c.rest.head?.any cls

/-- The places that a run of a class reaches, the nearest first: this place, and the further ones
up to the first character that is not in the class. -/
def reach (cls : Char → Bool) : Nat → Option Char → Text → List Cursor
  | pos, before, [] => [⟨pos, before, []⟩]
  | pos, before, x :: rest =>
    ⟨pos, before, x :: rest⟩ :: (if cls x then reach cls (pos + 1) (some x) rest else [])

end Cursor

namespace Ending

/-- An ending that kept nothing. -/
def plain (c : Cursor) : Ending :=
  ⟨c, []⟩

/-- The ending of a second pattern that went on from the first one's end. -/
def andThen (first second : Ending) : Ending :=
  ⟨second.here, first.kept ++ second.kept⟩

@[simp]
theorem here_andThen (first second : Ending) : (first.andThen second).here = second.here :=
  rfl

/-- Going on from two endings in a row is going on from the second and then from the first. -/
theorem andThen_andThen (a b : Ending) :
    (a.andThen b).andThen = fun c => a.andThen (b.andThen c) := by
  funext c
  simp [andThen]

end Ending

namespace Pattern

/-- Repetition of a step that is given by its endings. Every round must move on, so the length of
the remaining text bounds the rounds. -/
def repeated (step : Cursor → List Ending) : Nat → Cursor → List Ending
  | 0, c => [.plain c]
  | bound + 1, c =>
    ((step c).filter (fun e => c.pos < e.here.pos)).flatMap
      (fun e => (repeated step bound e.here).map e.andThen) ++ [.plain c]

/-- All the ways in which a pattern matches from a place, the preferred way first. -/
def ends : Pattern → Cursor → List Ending
  | .empty, c => [.plain c]
  | .one cls, c =>
    match c.rest with
    | [] => []
    | x :: rest => if cls x then [.plain ⟨c.pos + 1, some x, rest⟩] else []
  | .run .reluctant cls, c => (Cursor.reach cls c.pos c.before c.rest).map .plain
  | .run .eager cls, c => (Cursor.reach cls c.pos c.before c.rest).reverse.map .plain
  | .seq p q, c => (p.ends c).flatMap (fun e => (q.ends e.here).map e.andThen)
  | .alt p q, c => p.ends c ++ q.ends c
  | .star p, c => repeated p.ends c.rest.length c
  | .keep slot p, c =>
    (p.ends c).map (fun e => ⟨e.here, (slot, ⟨c.pos, e.here.pos⟩) :: e.kept⟩)
  | .edge, c => if c.isAfter Text.isWord != c.isBefore Text.isWord then [.plain c] else []
  | .notAfter cls, c => if c.isAfter cls then [] else [.plain c]
  | .ahead p, c => if (p.ends c).isEmpty then [] else [.plain c]
  | .textStart, c => if c.before.isNone then [.plain c] else []
  | .lineStart, c => if c.before.all (· == '\n') then [.plain c] else []
  | .textEnd, c => if c.rest.isEmpty || c.rest == ['\n'] then [.plain c] else []

end Pattern

end ChartLint
