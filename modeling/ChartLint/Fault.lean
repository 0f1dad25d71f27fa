import ChartLint.Text.Quoted
import ChartLint.Text.Digit

/-!
# Faults

The reasons for which an operation gives no answer, and the wording of each; then what is known of
steps that may fail when none of them does.
-/

namespace ChartLint

/-- Why an operation gave no answer. -/
inductive Fault where
  /-- A numeral has more digits than are read as a number. -/
  | longNumeral (digits : Nat)
  /-- A line number points behind the last line. -/
  | noSuchLine
  /-- No phase has this name. -/
  | unknownPhase (name : String)
  /-- No severity has this name. -/
  | unknownSeverity (name : String)
  /-- No verdict has this name. -/
  | unknownVerdict (name : String)
  /-- The script is not a text but a value of the named type. -/
  | notText (type : String)
  /-- A rule gave up with a reason of its own. -/
  | gaveUp (reason : String)
  /-- A request target is too long to be read. -/
  | longTarget
  /-- A request target holds a control character. -/
  | controlInTarget (c : Char) (position : Nat)
  /-- A request target names a port that is not a number. -/
  | unreadablePort (port : String)
  /-- The path of a request target starts like an authority. -/
  | pathLikeAuthority
  /-- The path of a request target starts like a scheme. -/
  | pathLikeScheme
deriving DecidableEq, Repr

/-- A text has no character at an offset. -/
def Fault.noSuchCharacter : Fault :=
  .gaveUp "string index out of range"

/-- The text between quotes, as messages cite it. -/
def cite (s : String) : String :=
  String.ofList (Text.quoted s.toList)

/-- The wording of a fault. -/
def Fault.message : Fault → String
  | .longNumeral digits =>
    s!"Exceeds the limit ({Text.digitLimit} digits) for integer string conversion: "
      ++ s!"value has {digits} digits; use sys.set_int_max_str_digits() to increase the limit"
  | .noSuchLine => "list index out of range"
  | .unknownPhase name => name
  | .unknownSeverity name => cite name ++ " is not a valid Severity"
  | .unknownVerdict name => cite name ++ " is not a valid Status"
  | .notText type => s!"source must be str, not {type}"
  | .gaveUp reason => reason
  | .longTarget => "URL too long"
  | .controlInTarget c position =>
    "Invalid non-printable ASCII character in URL, " ++ cite (String.singleton c)
      ++ s!" at position {position}."
  | .unreadablePort port => "Invalid port: " ++ cite port
  | .pathLikeAuthority => "Relative URLs cannot have a path starting with '//'"
  | .pathLikeScheme => "Relative URLs cannot have a path starting with ':'"

/-- A numeral of other characters than decimal digits, or of none. -/
def Fault.noNumeral (t : Text) : Fault :=
  .gaveUp ("invalid literal for int() with base 10: " ++ cite (String.ofList t))

/-! ## Steps that do not fail -/

section Steps

variable {α β ε : Type}

@[simp]
theorem ok_bind (a : α) (f : α → Except ε β) : (Except.ok a >>= f) = f a :=
  rfl

@[simp]
theorem map_ok (f : α → β) (a : α) : (Except.ok a : Except ε α).map f = .ok (f a) :=
  rfl

/-- The value of an operation that is known not to fail. -/
def valueOf : (x : Except ε α) → (∃ a, x = .ok a) → α
  | .ok a, _ => a
  | .error _, h => absurd h (fun ⟨_, heq⟩ => nomatch heq)

theorem eq_ok_valueOf {x : Except ε α} (h : ∃ a, x = .ok a) : x = .ok (valueOf x h) := by
  obtain ⟨a, rfl⟩ := h
  rfl

theorem valueOf_eq {x : Except ε α} (h : ∃ a, x = .ok a) {a : α} (heq : x = .ok a) :
    valueOf x h = a := by
  subst heq
  rfl

variable {xs : List α}

/-- Where every step has its value, all steps together have theirs. -/
theorem mapM_eq_ok {f : α → Except ε β} {ys : List β} (hlength : xs.length = ys.length)
    (h : ∀ {n : Nat} {x y}, xs[n]? = some x → ys[n]? = some y → f x = .ok y) : xs.mapM f = .ok ys := by
  induction xs generalizing ys with
  | nil =>
    obtain rfl := List.length_eq_zero_iff.mp hlength.symm
    rfl
  | cons x xs ih =>
    cases ys with
    | nil => cases hlength
    | cons y ys =>
      have hfirst : f x = .ok y := @h 0 x y rfl rfl
      have hothers := ih (Nat.succ.inj hlength) (fun {n _ _} hx hy => @h (n + 1) _ _ hx hy)
      rw [List.mapM_cons, hfirst, hothers]
      rfl

end Steps

end ChartLint
