import ChartLint.Text.Basic

/-!
# Requests

The body of a request is a dynamic value. Reading it checks each field on its own and collects all
objections, in the order in which the fields are declared.
-/

namespace ChartLint.Service

/-- A dynamic value. -/
inductive Payload where
  | null
  | bool (b : Bool)
  /-- The number `mantissa / 10 ^ scale`. -/
  | number (mantissa : Int) (scale : Nat)
  | text (s : String)
  | list (items : List Payload)
  | object (fields : List (String × Payload))
deriving Inhabited

/-- What is wrong with a part of a body. -/
inductive Objection where
  | missing
  | notAnObject
  | notText
  /-- The value is of a type that has no truth values. -/
  | notBool
  /-- The value is of a type that could be a truth value, but is none. -/
  | unreadableBool
deriving DecidableEq, Repr

/-- The name of an objection in answers. -/
def Objection.name : Objection → String
  | .missing => "missing"
  | .notAnObject => "model_attributes_type"
  | .notText => "string_type"
  | .notBool => "bool_type"
  | .unreadableBool => "bool_parsing"

/-- An objection and the path to the part it is about. -/
structure Rejection where
  objection : Objection
  path : List String
deriving DecidableEq, Repr

/-- A value that was read, or the objections to it. -/
abbrev Read (α : Type) := Except (List Rejection) α

namespace Read

/-- Puts two readings together, keeping the objections of both. -/
def both {α β : Type} : Read α → Read β → Read (α × β)
  | .ok a, .ok b => .ok (a, b)
  | .ok _, .error es => .error es
  | .error es, .ok _ => .error es
  | .error es, .error fs => .error (es ++ fs)

end Read

/-! ## Single values -/

/-- The strings that stand for false, in lower case. -/
def falseWords : List String :=
  ["0", "off", "f", "false", "n", "no"]

/-- The strings that stand for true, in lower case. -/
def trueWords : List String :=
  ["1", "on", "t", "true", "y", "yes"]

/-- A truth value written as a string, in any case and without blanks around it. -/
def boolOfText (s : String) : Except Objection Bool :=
  let wanted := String.ofList (s.toList.map Char.toLower)
  if falseWords.contains wanted then .ok false
  else if trueWords.contains wanted then .ok true
  else .error .unreadableBool

/-- The bound of the machine integers, which run from its negative up to, not including, it. -/
def machineBound : Int := 9223372036854775808

/-- A truth value written as a number: zero or one. Other numbers are at least of the right type if
they are machine integers. -/
def boolOfNumber (mantissa : Int) (scale : Nat) : Except Objection Bool :=
  let unit := Int.ofNat (Nat.pow 10 scale)
  if mantissa % unit ≠ 0 then .error .notBool
  else if mantissa = 0 then .ok false
  else if mantissa = unit then .ok true
  else if -machineBound ≤ mantissa / unit && mantissa / unit < machineBound then
    .error .unreadableBool
  else .error .notBool

namespace Payload

/-- The value as a truth value. -/
def toBool : Payload → Except Objection Bool
  | .bool b => .ok b
  | .number mantissa scale => boolOfNumber mantissa scale
  | .text s => boolOfText s
  | _ => .error .notBool

/-- The value as a text. -/
def toText : Payload → Except Objection String
  | .text s => .ok s
  | _ => .error .notText

/-- The value as one that may be null. -/
def orNull {α : Type} (read : Payload → Except Objection α) : Payload → Except Objection (Option α)
  | .null => .ok none
  | value => (read value).map some

end Payload

/-! ## Fields and bodies -/

/-- The fields of an object. -/
abbrev Fields := List (String × Payload)

namespace Fields

/-- A reading of a field's value, with the path to the field on its objection. -/
def located {α : Type} (key : String) : Except Objection α → Read α
  | .ok a => .ok a
  | .error objection => .error [⟨objection, ["body", key]⟩]

/-- A field that must be there. -/
def required {α : Type} (fields : Fields) (key : String)
    (read : Payload → Except Objection α) : Read α :=
  match fields.lookup key with
  | none => .error [⟨.missing, ["body", key]⟩]
  | some value => located key (read value)

/-- A field that may be left out. -/
def optional {α : Type} (fields : Fields) (key : String) (fallback : α)
    (read : Payload → Except Objection α) : Read α :=
  match fields.lookup key with
  | none => .ok fallback
  | some value => located key (read value)

end Fields

/-- The fields of a body: there must be one, and it must be an object. -/
def fieldsOf : Option Payload → Read Fields
  | none | some .null => .error [⟨.missing, ["body"]⟩]
  | some (.object fields) => .ok fields
  | some _ => .error [⟨.notAnObject, ["body"]⟩]

/-- A request for an audit. -/
structure AuditRequest where
  code : String
  strict : Option Bool
  autoFix : Bool
deriving DecidableEq, Repr

/-- A request for a dry run. -/
structure DryRunRequest where
  code : String
deriving DecidableEq, Repr

/-- A request for a modernization. -/
structure ModernizeRequest where
  code : String
  kind : Option String
deriving DecidableEq, Repr

/-- The code that every request carries. -/
def codeField (fields : Fields) : Read String :=
  fields.required "code" Payload.toText

/-- Reads a request for an audit; an audit repairs only if it is asked to. -/
def AuditRequest.read (body : Option Payload) : Read AuditRequest := do
  let fields ← fieldsOf body
  let (code, strict, autoFix) ←
    (codeField fields).both ((fields.optional "strict" none (Payload.orNull Payload.toBool)).both
      (fields.optional "auto_fix" false Payload.toBool))
  return ⟨code, strict, autoFix⟩

/-- Reads a request for a dry run. -/
def DryRunRequest.read (body : Option Payload) : Read DryRunRequest := do
  let fields ← fieldsOf body
  return ⟨← codeField fields⟩

/-- Reads a request for a modernization; the kind of script may be left to detection. -/
def ModernizeRequest.read (body : Option Payload) : Read ModernizeRequest := do
  let fields ← fieldsOf body
  let (code, kind) ←
    (codeField fields).both (fields.optional "script_type" none (Payload.orNull Payload.toText))
  return ⟨code, kind⟩

end ChartLint.Service
