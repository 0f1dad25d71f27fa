import ChartLint.Pattern.Basic

/-!
# Searching

A search tries a pattern at every offset of a text, from the left, and takes the preferred match
at the first offset that has one. `findAll` goes on behind the end of each match, so that its
matches do not overlap.
-/

namespace ChartLint

/-- A stretch of text that a pattern covers, and the parts that the pattern kept. -/
structure Match where
  start : Nat
  stop : Nat
  kept : List (Slot × Span)
deriving DecidableEq, Repr

namespace Match

/-- The text of the whole match. -/
def text (m : Match) (t : Text) : Text :=
  t.slice m.start m.stop

/-- The part kept under a slot; empty at the start of the match when the pattern kept none. -/
def span (m : Match) (slot : Slot) : Span :=
  (m.kept.lookup slot).getD ⟨m.start, m.start⟩

/-- The text of the part kept under a slot. -/
def part (m : Match) (slot : Slot) (t : Text) : Text :=
  t.within (m.span slot)

end Match

namespace Pattern

/-- The preferred match that starts at a place. -/
def matchAt? (p : Pattern) (c : Cursor) : Option Match :=
  (p.ends c).head?.map (fun e => ⟨c.pos, e.here.pos, e.kept⟩)

/-- The first match in the text that follows a place. -/
def findFrom? (p : Pattern) : Nat → Option Char → Text → Option Match
  | pos, before, [] => p.matchAt? ⟨pos, before, []⟩
  | pos, before, x :: rest =>
    match p.matchAt? ⟨pos, before, x :: rest⟩ with
    | some m => some m
    | none => findFrom? p (pos + 1) (some x) rest

/-- The matches in the text that follows a place, none of which starts below `resume`. -/
def findAllFrom (p : Pattern) (resume : Nat) : Nat → Option Char → Text → List Match
  | pos, before, [] => if pos < resume then [] else (p.matchAt? ⟨pos, before, []⟩).toList
  | pos, before, x :: rest =>
    if pos < resume then
      findAllFrom p resume (pos + 1) (some x) rest
    else
      match p.matchAt? ⟨pos, before, x :: rest⟩ with
      | some m => m :: findAllFrom p m.stop (pos + 1) (some x) rest
      | none => findAllFrom p resume (pos + 1) (some x) rest

/-- The first match in a text. -/
def find? (p : Pattern) (t : Text) : Option Match :=
  p.findFrom? 0 none t

/-- The matches in a text, from the left and without overlap. -/
def findAll (p : Pattern) (t : Text) : List Match :=
  p.findAllFrom 0 0 none t

/-- Whether a pattern matches somewhere in a text. -/
def occursIn (p : Pattern) (t : Text) : Bool :=
  (p.find? t).isSome

/-- The first match between two offsets. The text counts as ended at `stop`, but the character in
front of `start` is still seen. -/
def findWithin? (p : Pattern) (t : Text) (start stop : Nat) : Option Match :=
  let c := Cursor.ofOffset (t.take stop) start
  p.findFrom? c.pos c.before c.rest

/-- The matches between two offsets, under the same reading of the two ends. -/
def findAllWithin (p : Pattern) (t : Text) (start stop : Nat) : List Match :=
  let c := Cursor.ofOffset (t.take stop) start
  p.findAllFrom 0 c.pos c.before c.rest

end Pattern

end ChartLint
