import ChartLint.Proofs.Steps
import ChartLint.Service.Request
import ChartLint.Service.Settings
import Mathlib.Data.List.Basic

/-!
# What a request and the settings say

Reading a body never stops at the first objection. Either the body is no object, which is the only
objection then, or each declared field is read on its own, and there is at most one objection to
each, in the order in which the fields are declared (`AuditRequest.objectsTo_read`, and likewise for
the other requests). A request that is written down as a body is read back from it
(`AuditRequest.read_body`).

A dynamic value stands for a truth value in three ways, stated apart from the readers in
`Payload.Means`; `toBool_eq_ok_iff` says that these are all. The settings need no reader's trust at
all: whatever the environment holds, they can be served with (`Settings.sound_ofEnvironment`).
-/

namespace ChartLint.Service

/-! ## Objections -/

namespace Read

variable {α β : Type}

/-- The objections of a reading; none if it gives a value. -/
def objections : Read α → List Rejection
  | .ok _ => []
  | .error rejections => rejections

/-- A reading gives a value or objects to some of these paths, to each once and in this order. -/
structure ObjectsTo (paths : List (List String)) (r : Read α) : Prop where
  reads : r.objections = [] → ∃ a, r = .ok a
  sublist : (r.objections.map (·.path)).Sublist paths

/-- **Two readings put together** keep the objections of both. -/
theorem objections_both (r : Read α) (r' : Read β) :
    (r.both r').objections = r.objections ++ r'.objections := by
  cases r <;> cases r' <;> simp [both, objections]

theorem ObjectsTo.both {paths paths' : List (List String)} {r : Read α} {r' : Read β}
    (h : r.ObjectsTo paths) (h' : r'.ObjectsTo paths') :
    (r.both r').ObjectsTo (paths ++ paths') where
  reads hnone := by
    rw [objections_both, List.append_eq_nil_iff] at hnone
    obtain ⟨a, rfl⟩ := h.reads hnone.1
    obtain ⟨b, rfl⟩ := h'.reads hnone.2
    exact ⟨(a, b), rfl⟩
  sublist := by
    rw [objections_both, List.map_append]
    exact h.sublist.append h'.sublist

/-- What is made of a value that was read brings no objection. -/
theorem ObjectsTo.bind {paths : List (List String)} {r : Read α} (h : r.ObjectsTo paths)
    {f : α → Read β} (hf : ∀ a, ∃ b, f a = .ok b) : Read.ObjectsTo paths (r >>= f) := by
  cases r with
  | ok a =>
    obtain ⟨b, hb⟩ := hf a
    rw [ok_bind, hb]
    exact ⟨fun _ => ⟨b, rfl⟩, List.nil_sublist _⟩
  | error rejections =>
    refine ⟨fun hnone => ?_, h.sublist⟩
    obtain ⟨a, hfalse⟩ := h.reads hnone
    cases hfalse

end Read

namespace Fields

variable {α : Type} (key : String)

/-- The path to a field of a body. -/
def path : List String :=
  ["body", key]

theorem objectsTo_located (x : Except Objection α) : (located key x).ObjectsTo [path key] := by
  cases x with
  | ok a => exact ⟨fun _ => ⟨a, rfl⟩, List.nil_sublist _⟩
  | error objection => exact ⟨fun h => (List.cons_ne_nil _ _ h).elim, List.Sublist.refl _⟩

variable (fields : Fields) (read : Payload → Except Objection α)

theorem objectsTo_required : (fields.required key read).ObjectsTo [path key] := by
  unfold required
  split
  · exact ⟨fun h => (List.cons_ne_nil _ _ h).elim, List.Sublist.refl _⟩
  · exact objectsTo_located key _

theorem objectsTo_optional (fallback : α) :
    (fields.optional key fallback read).ObjectsTo [path key] := by
  unfold optional
  split
  · exact ⟨fun _ => ⟨fallback, rfl⟩, List.nil_sublist _⟩
  · exact objectsTo_located key _

end Fields

/-- What a body as a whole is objected to for. -/
theorem objectsTo_fieldsOf (body : Option Payload) : (fieldsOf body).ObjectsTo [["body"]] := by
  unfold fieldsOf
  split
  case h_3 fields => exact ⟨fun _ => ⟨fields, rfl⟩, List.nil_sublist _⟩
  all_goals exact ⟨fun h => (List.cons_ne_nil _ _ h).elim, List.Sublist.refl _⟩

/-- Either the body is no object, and nothing else is objected to, or its fields are read. -/
theorem objectsTo_bind_fieldsOf {α : Type} {paths : List (List String)} {read : Fields → Read α}
    (h : ∀ fields, (read fields).ObjectsTo paths) (body : Option Payload) :
    Read.ObjectsTo [["body"]] (fieldsOf body >>= read)
      ∨ Read.ObjectsTo paths (fieldsOf body >>= read) := by
  have hbody := objectsTo_fieldsOf body
  cases hfields : fieldsOf body with
  | ok fields => exact .inr (h fields)
  | error rejections =>
    rw [hfields] at hbody
    refine .inl ⟨fun hnone => ?_, hbody.sublist⟩
    obtain ⟨fields, hfalse⟩ := hbody.reads hnone
    cases hfalse

/-! ## Requests -/

theorem objectsTo_codeField (fields : Fields) :
    (codeField fields).ObjectsTo [Fields.path "code"] :=
  fields.objectsTo_required "code" _

namespace AuditRequest

/-- **A request for an audit** is objected to as a whole or field by field. -/
theorem objectsTo_read (body : Option Payload) :
    (read body).ObjectsTo [["body"]]
      ∨ (read body).ObjectsTo (["code", "strict", "auto_fix"].map Fields.path) := by
  refine objectsTo_bind_fieldsOf (fun fields => ?_) body
  refine Read.ObjectsTo.bind ?_ (fun _ => ⟨_, rfl⟩)
  exact (objectsTo_codeField fields).both
    ((fields.objectsTo_optional "strict" _ _).both (fields.objectsTo_optional "auto_fix" _ _))

/-- The body that asks for an audit. -/
def body (r : AuditRequest) : Payload :=
  .object [("code", .text r.code), ("strict", (r.strict.map Payload.bool).getD .null),
    ("auto_fix", .bool r.autoFix)]

/-- **A request is read back** from its body. -/
theorem read_body (r : AuditRequest) : read (some r.body) = .ok r := by
  obtain ⟨code, strict, autoFix⟩ := r
  cases strict <;> rfl

/-- Fields that a request does not have are not seen. -/
theorem read_congr {fields fields' : Fields}
    (h : ∀ key ∈ ["code", "strict", "auto_fix"], fields.lookup key = fields'.lookup key) :
    read (some (.object fields)) = read (some (.object fields')) := by
  have hcode := h "code" (by simp)
  have hstrict := h "strict" (by simp)
  have hfix := h "auto_fix" (by simp)
  simp only [read, fieldsOf, ok_bind, codeField, Fields.required, Fields.optional, hcode, hstrict, hfix]

end AuditRequest

namespace DryRunRequest

/-- **A request for a dry run** is objected to as a whole or for its code. -/
theorem objectsTo_read (body : Option Payload) :
    (read body).ObjectsTo [["body"]] ∨ (read body).ObjectsTo [Fields.path "code"] :=
  objectsTo_bind_fieldsOf
    (fun fields => (objectsTo_codeField fields).bind (fun _ => ⟨_, rfl⟩)) body

/-- The body that asks for a dry run. -/
def body (r : DryRunRequest) : Payload :=
  .object [("code", .text r.code)]

theorem read_body (r : DryRunRequest) : read (some r.body) = .ok r :=
  rfl

end DryRunRequest

namespace ModernizeRequest

/-- **A request for a modernization** is objected to as a whole or field by field. -/
theorem objectsTo_read (body : Option Payload) :
    (read body).ObjectsTo [["body"]]
      ∨ (read body).ObjectsTo (["code", "script_type"].map Fields.path) := by
  refine objectsTo_bind_fieldsOf (fun fields => ?_) body
  refine Read.ObjectsTo.bind ?_ (fun _ => ⟨_, rfl⟩)
  exact (objectsTo_codeField fields).both (fields.objectsTo_optional "script_type" _ _)

/-- The body that asks for a modernization. -/
def body (r : ModernizeRequest) : Payload :=
  .object [("code", .text r.code), ("script_type", (r.kind.map Payload.text).getD .null)]

theorem read_body (r : ModernizeRequest) : read (some r.body) = .ok r := by
  obtain ⟨code, kind⟩ := r
  cases kind <;> rfl

end ModernizeRequest

/-! ## Truth values -/

/-- The ways to write a truth value. -/
inductive Payload.Means : Payload → Bool → Prop
  | bool (b : Bool) : Means (.bool b) b
  | zero (scale : Nat) : Means (.number 0 scale) false
  /-- The number one, with any number of decimals. -/
  | one (scale : Nat) : Means (.number (Int.ofNat (Nat.pow 10 scale)) scale) true
  | falseWord (s : String) (h : String.ofList (s.toList.map Char.toLower) ∈ falseWords) :
    Means (.text s) false
  | trueWord (s : String) (h : String.ofList (s.toList.map Char.toLower) ∈ trueWords) :
    Means (.text s) true

/-- A number is a truth value if it is zero or one. -/
theorem boolOfNumber_eq_ok_iff {mantissa : Int} {scale : Nat} {b : Bool} :
    boolOfNumber mantissa scale = .ok b ↔
      mantissa = 0 ∧ b = false ∨ mantissa = Int.ofNat (Nat.pow 10 scale) ∧ b = true := by
  have hunit : Int.ofNat (Nat.pow 10 scale) ≠ 0 := by
    have hpos := Nat.pow_pos (n := scale) (show 0 < 10 by decide)
    exact Int.ofNat_ne_zero.mpr (Nat.pos_iff_ne_zero.mp hpos)
  unfold boolOfNumber
  generalize Int.ofNat (Nat.pow 10 scale) = unit at hunit
  simp only
  split
  · next hbroken =>
    -- neither zero nor one is a broken number
    constructor
    · rintro ⟨⟩
    · rintro (⟨rfl, -⟩ | ⟨rfl, -⟩) <;> simp at hbroken
  · split
    · next hzero => simp [hzero, hunit.symm, eq_comm]
    · next hzero =>
      split
      · next hone => simp [hone, hunit, eq_comm]
      · next hone => split <;> simp [hzero, hone]

/-- The words for true and for false are different ones. -/
theorem not_mem_falseWords {w : String} (h : w ∈ trueWords) : w ∉ falseWords := by
  simp only [trueWords, List.mem_cons, List.not_mem_nil, or_false] at h
  rcases h with rfl | rfl | rfl | rfl | rfl | rfl <;> decide

theorem boolOfText_eq_ok_iff {s : String} {b : Bool} :
    boolOfText s = .ok b ↔
      String.ofList (s.toList.map Char.toLower) ∈ falseWords ∧ b = false
        ∨ String.ofList (s.toList.map Char.toLower) ∈ trueWords ∧ b = true := by
  unfold boolOfText
  simp only [List.contains_iff_mem]
  split
  · next hfalse =>
    have htrue : String.ofList (s.toList.map Char.toLower) ∉ trueWords :=
      fun h => not_mem_falseWords h hfalse
    simp [hfalse, htrue, eq_comm]
  · next hfalse => split <;> simp [*, eq_comm]

/-- **A value is read as a truth value** exactly if it is a way to write one. -/
theorem Payload.toBool_eq_ok_iff {value : Payload} {b : Bool} :
    value.toBool = .ok b ↔ value.Means b := by
  constructor
  · intro h
    cases value with
    | bool b' =>
      obtain rfl := Except.ok.inj h
      exact .bool b'
    | number mantissa scale =>
      rcases boolOfNumber_eq_ok_iff.mp h with ⟨rfl, rfl⟩ | ⟨rfl, rfl⟩
      · exact .zero scale
      · exact .one scale
    | text s =>
      rcases boolOfText_eq_ok_iff.mp h with ⟨hs, rfl⟩ | ⟨hs, rfl⟩
      · exact .falseWord s hs
      · exact .trueWord s hs
    | null => cases h
    | list items => cases h
    | object fields => cases h
  · intro h
    cases h with
    | bool => rfl
    | zero scale => exact (@boolOfNumber_eq_ok_iff 0 scale false).mpr (.inl ⟨rfl, rfl⟩)
    | one scale => exact boolOfNumber_eq_ok_iff.mpr (.inr ⟨rfl, rfl⟩)
    | falseWord s hs => exact boolOfText_eq_ok_iff.mpr (.inl ⟨hs, rfl⟩)
    | trueWord s hs => exact boolOfText_eq_ok_iff.mpr (.inr ⟨hs, rfl⟩)

/-! ## Settings -/

namespace Settings

/-- What the service takes for granted about its settings. -/
structure Sound (s : Settings) : Prop where
  limit : 0 < s.maxCodeBytes
  named : s.logLevel ≠ ""
  /-- The log has a level, named or not. -/
  levelled : s.rootLevel ≠ .unset

/-- A level that no log can have gives way. -/
theorem rootLevel_ne_unset (s : Settings) : s.rootLevel ≠ .unset := by
  unfold rootLevel
  split
  · decide
  · decide
  · next level hother _ =>
    rintro rfl
    exact hother rfl

/-- **Every environment gives settings to serve with.** -/
theorem sound_ofEnvironment (env : Environment) : (ofEnvironment env).Sound where
  limit := by
    simp only [ofEnvironment]
    split
    · assumption
    · decide
  named := by
    simp only [ofEnvironment]
    split
    · decide
    · next h => simpa [← String.toList_inj] using h
  levelled := rootLevel_ne_unset _

/-- The service warns when it starts if and only if no level has the name that it is given. -/
theorem exists_warning_iff (s : Settings) :
    (∃ entry ∈ s.startupLog, entry.level = .warning) ↔ s.level? = none := by
  unfold startupLog
  cases h : s.level? <;> simp

end Settings

end ChartLint.Service
