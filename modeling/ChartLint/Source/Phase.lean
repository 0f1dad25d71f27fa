import ChartLint.Pattern.Build

/-!
# Phases of a script's life

A script configures itself in its state branches and works in its bar update. A statement counts
as belonging to the phase whose marker stands nearest in front of it.
-/

namespace ChartLint

/-- A phase of a script's life. -/
inductive Phase where
  | setDefaults
  | configure
  | dataLoaded
  | barUpdate
deriving DecidableEq, Repr

namespace Phase

open Pattern

/-- The four phases. -/
def all : List Phase :=
  [.setDefaults, .configure, .dataLoaded, .barUpdate]

/-- The identifier that marks a phase. -/
def name : Phase → String
  | .setDefaults => "SetDefaults"
  | .configure => "Configure"
  | .dataLoaded => "DataLoaded"
  | .barUpdate => "OnBarUpdate"

/-- The phase with a given identifier. -/
def ofName? (s : String) : Option Phase :=
  all.find? (fun phase => phase.name == s)

/-- A phase is read back from its name. -/
theorem ofName?_name (phase : Phase) : ofName? phase.name = some phase := by
  cases phase <;> rfl

/-- A reference to a platform state. -/
def stateReference (state : String) : Pattern :=
  .edge ++ "State" ++ blanks ++ "." ++ blanks ++ state ++ .edge

/-- What marks the start of a phase: the reference to its state, or the method's declaration. -/
def marker : Phase → Pattern
  | .barUpdate => .edge ++ "void" ++ gap ++ "OnBarUpdate" ++ blanks ++ "("
  | phase => stateReference phase.name

/-- A marker found in masked text. -/
structure Mark where
  phase : Phase
  offset : Nat
deriving DecidableEq, Repr

/-- The markers of all phases, those of one phase from the left. -/
def marks (masked : Text) : List Mark :=
  all.flatMap (fun phase => (phase.marker.findAll masked).map (fun m => ⟨phase, m.start⟩))

/-- The last marker of one phase that starts in front of an offset. -/
def lastMark? (ms : List Mark) (phase : Phase) (offset : Nat) : Option Nat :=
  ms.foldl (fun best m => if m.phase = phase ∧ m.offset < offset then some m.offset else best) none

/-- The better of the marker found so far and the last marker of a phase: the one that starts
later. Where both start at one place the earlier phase stays. -/
def better? (ms : List Mark) (offset : Nat) (best : Option Mark) (phase : Phase) : Option Mark :=
  match lastMark? ms phase offset with
  | none => best
  | some pos => if best.all (fun b => b.offset < pos) then some ⟨phase, pos⟩ else best

/-- The last marker in front of an offset, found phase by phase. -/
def latest? (ms : List Mark) (offset : Nat) : Option Mark :=
  all.foldl (better? ms offset) none

/-- The phase that an offset belongs to; none in front of the first marker. -/
def at? (ms : List Mark) (offset : Nat) : Option Phase :=
  (latest? ms offset).map (·.phase)

end Phase

end ChartLint
