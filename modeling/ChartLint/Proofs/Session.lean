import ChartLint.Proofs.Audit.Registration
import ChartLint.Proofs.Repair.Insertion
import ChartLint.Session

/-!
# Sessions step by step

A session is a fold: each of its steps is taken on the script that the steps before it leave
(`getElem?_run`). What one step keeps, a session of such steps keeps (`scriptAfter_induction`).

Two kinds of steps keep something. A step that only looks leaves the script as it is. A step that
looks or repairs takes nothing out of the script and keeps what the balance rule says of it; so a
session of audits and dry runs, however many repairs it makes, only adds text and never upsets the
delimiters (`Tended.scriptAfter`).
-/

namespace ChartLint

open Lexing

namespace Session

variable (p : Platform)

/-! ## Runs -/

/-- The script behind a list of steps. -/
def scriptAfter (code : Text) (steps : List Step) : Text :=
  steps.foldl (fun code step => (step.take p code).2) code

theorem scriptAfter_append (code : Text) (steps more : List Step) :
    scriptAfter p code (steps ++ more) = scriptAfter p (scriptAfter p code steps) more :=
  List.foldl_append

/-- **Every step is taken** on the script behind the steps before it. -/
theorem getElem?_run (code : Text) (steps : List Step) (n : Nat) :
    (run p code steps)[n]? = steps[n]?.map (fun step => step.take p (scriptAfter p code (steps.take n)))
    := by
  induction steps generalizing code n with
  | nil => rfl
  | cons step steps ih =>
    cases n with
    | zero => rfl
    | succ n => exact ih (step.take p code).2 n

/-- A session can be taken up where it was left. -/
theorem run_append (code : Text) (steps more : List Step) :
    run p code (steps ++ more) = run p code steps ++ run p (scriptAfter p code steps) more := by
  induction steps generalizing code with
  | nil => rfl
  | cons step steps ih => exact congrArg _ (ih (step.take p code).2)

variable {p}

/-- **What every step keeps** the session keeps. -/
theorem scriptAfter_induction {P : Text → Prop} {steps : List Step}
    (hstep : ∀ step ∈ steps, ∀ code, P code → P (step.take p code).2) {code : Text} (h : P code) :
    P (scriptAfter p code steps) := by
  induction steps generalizing code with
  | nil => exact h
  | cons step steps ih =>
    exact ih (fun s hs => hstep s (List.mem_cons_of_mem step hs))
      (hstep step List.mem_cons_self code h)

/-! ## Steps that only look -/

/-- A step that only looks: an audit without repair, or a dry run. -/
inductive Looks : Step → Prop
  | audit (strict : Bool) : Looks (.audit strict false)
  | dryRun : Looks .dryRun

/-- Looking leaves the script as it is. -/
theorem Looks.take {step : Step} (h : Looks step) (code : Text) : (step.take p code).2 = code := by
  cases h with
  | audit strict => simp [Step.take]
  | dryRun => rfl

/-- A session that only looks makes each of its reports on one script. -/
theorem run_of_looks {steps : List Step} (h : ∀ step ∈ steps, Looks step) (code : Text) :
    run p code steps = steps.map (fun step => step.take p code) := by
  induction steps generalizing code with
  | nil => rfl
  | cons step steps ih =>
    have hlook : (step.take p code).2 = code := (h step List.mem_cons_self).take code
    rw [run, hlook, ih (fun s hs => h s (List.mem_cons_of_mem step hs))]
    rfl

/-! ## Steps that repair -/

/-- A step that changes the script by repair alone: an audit, or a dry run. -/
inductive Tends : Step → Prop
  | audit (strict autoFix : Bool) : Tends (.audit strict autoFix)
  | dryRun : Tends .dryRun

/-- What repair makes of a script: text is added to it, and the balance rule reads it as before. -/
structure Tended (code fixed : Text) : Prop where
  sublist : code.Sublist fixed
  alike : Rule.Balance.Alike (mask fixed) (mask code)

theorem Tended.refl (code : Text) : Tended code code :=
  ⟨List.Sublist.refl _, .refl _⟩

theorem Tended.trans {code code' fixed : Text} (h : Tended code code') (h' : Tended code' fixed) :
    Tended code fixed :=
  ⟨h.sublist.trans h'.sublist, h'.alike.trans h.alike⟩

/-- **The balance rule says the same** of a tended script. -/
theorem Tended.said_balance {code fixed : Text} (h : Tended code fixed) :
    (Audit.issuesOf (Source.ofCode fixed) .balance).map (fun i => i.said)
      = (Audit.issuesOf (Source.ofCode code) .balance).map (fun i => i.said) := by
  show (List.map _ (List.map _ _)) = List.map _ (List.map _ _)
  rw [List.map_map, List.map_map]
  exact h.alike.said

/-- What is left when blocks are taken out is in order. -/
theorem sublist_of_delete {newline : Text} {b : Repair.Block} {t t' : Text}
    (h : b.delete newline t = some t') : t'.Sublist t := by
  unfold Repair.Block.delete at h
  split at h
  · obtain rfl := Option.some.inj h
    have hrest : (t.drop (b.offset + (b.text newline).length)).Sublist (t.drop b.offset) := by
      rw [← List.drop_drop]
      exact List.drop_sublist _ _
    rw [Text.splice, List.append_nil]
    exact ((List.Sublist.refl _).append hrest).trans (by rw [List.take_append_drop])
  · cases h

theorem sublist_of_deleteAll {newline : Text} {blocks : List Repair.Block} {t t' : Text}
    (h : Repair.Block.deleteAll newline blocks t = some t') : t'.Sublist t := by
  induction blocks generalizing t' with
  | nil =>
    obtain rfl := Option.some.inj h
    exact List.Sublist.refl _
  | cons b later ih =>
    obtain ⟨u, hu, hb⟩ := Option.bind_eq_some_iff.mp h
    exact (sublist_of_delete hb).trans (ih hu)

/-- **The repair of an audit** tends the script: of the rules of the suite, only the brush rule names
properties to mend, and it names them by words. -/
theorem tended_run (code : Text) :
    Tended code (Repair.run ((Rule.suite p).flatMap (Audit.issuesOf (Source.ofCode code))) code) := by
  have hcheck : Rule.brush.check (Source.ofCode code)
      = .ok (Audit.issuesOf (Source.ofCode code) .brush) := by
    rw [Audit.issuesOf, Rule.Brush.check_eq]
  have hsubjects : Repair.subjects ((Rule.suite p).flatMap (Audit.issuesOf (Source.ofCode code)))
      = Repair.subjects (Audit.issuesOf (Source.ofCode code) .brush) :=
    Audit.subjects_of_mem (fun _ => .suite) (by simp [Rule.suite])
  rw [Repair.run_congr_subjects hsubjects, Repair.run_eq]
  obtain ⟨blocks, -, hdelete, halike⟩ := Repair.repaired_foldl (Repair.isNewline_lineBreak code)
    (fun prop hprop => Repair.isWord_of_mem_subjects hcheck hprop) code
  exact ⟨sublist_of_deleteAll hdelete, halike⟩

/-- One step tends the script. -/
theorem Tends.take {step : Step} (h : Tends step) (code : Text) :
    Tended code (step.take p code).2 := by
  cases h with
  | dryRun => exact .refl code
  | audit strict autoFix =>
    simp only [Step.take, Audit.run_fixedCode]
    split
    · exact tended_run code
    · exact .refl code

/-- **A session of audits and dry runs** only adds text to the script and keeps what the balance rule
says of it. -/
theorem Tended.scriptAfter {steps : List Step} (h : ∀ step ∈ steps, Tends step) (code : Text) :
    Tended code (scriptAfter p code steps) :=
  scriptAfter_induction (P := Tended code)
    (fun step hstep _ htended => htended.trans ((h step hstep).take _)) (.refl code)

end Session

end ChartLint
