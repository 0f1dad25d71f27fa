import ChartLint.DryRun
import ChartLint.Proofs.Respacing.Skeleton

/-!
# The dry run of a respaced script

The dry run makes the same remarks on a respaced script, each on the line that its line has become
(`run_text`). Its messages quote nothing but names, so they are the same to the letter.
-/

namespace ChartLint

namespace Respacing

open Text Pattern Source

variable {r : Respacing} {p : Platform} {t : Text}

/-- A remark on the line that its line has become. -/
def remark (r : Respacing) (d : Diagnostic) : Diagnostic :=
  { d with line := r.lineNo d.line }

/-- The outcome of a dry run, with its remarks on the lines of the respaced script. -/
def outcome (r : Respacing) (run : DryRun) : DryRun :=
  { run with errors := run.errors.map r.remark, warnings := run.warnings.map r.remark }

/-- A remark on the whole script stays one. -/
theorem remark_whole (d : Diagnostic) (h : d.line = 0) : r.remark d = d := by
  rw [remark, h, lineNo, if_pos rfl, ← h]

/-- What a script has to have somewhere, the respaced script has if the script does. -/
theorem require_text {q : Pattern} (hq : r.Steady q) (hfits : r.Fits t) (message : String) :
    DryRun.require (r.text t) q message = (DryRun.require t q message).map r.remark := by
  unfold DryRun.require
  rw [occursIn_text hq hfits]
  split
  · rfl
  · rw [List.map_cons, List.map_nil, remark_whole _ rfl]

/-- A script is to have one class. Where it has more, the second one is the place of the error. -/
theorem classErrors_text (hfits : r.Fits t) :
    DryRun.classErrors (r.text t) = (DryRun.classErrors t).map r.remark := by
  unfold DryRun.classErrors
  rw [findAll_text steady_class hfits]
  match hms : classDeclaration.findAll t with
  | [] => rfl
  | [m] => rfl
  | first :: second :: others =>
    have hsecond : second ∈ classDeclaration.findAll t := by
      rw [hms]
      simp
    have hline := lineOf_start (r := r) (found_of_mem_findAll hsecond)
    simp only [List.map_cons, List.map_nil, DryRun.error, remark, hline]

/-- The two methods of a script are told by their names, on one line with the words in front. -/
theorem steady_override :
    r.Steady (DryRun.protectedOverride "OnStateChange")
      ∧ r.Steady (DryRun.protectedOverride "OnBarUpdate") :=
  ⟨steady_of_isSteady (by decide), steady_of_isSteady (by decide)⟩

/-- **The frame** of a script: its class, its namespace and its two methods. -/
theorem frameErrors_text (hfits : r.Fits t) :
    DryRun.frameErrors (r.text t) = (DryRun.frameErrors t).map r.remark := by
  unfold DryRun.frameErrors
  simp only [List.map_append]
  rw [classErrors_text hfits, require_text steady_namespace hfits,
    require_text steady_override.1 hfits, require_text steady_override.2 hfits]

/-- A remark on each match whose name is not in a table. -/
theorem map_unlisted_text {q : Pattern} (hq : r.Steady q)
    (hname : ∀ a ∈ q.keptBy .name, a.avoids '\n' = true) (table : List String) (hfits : r.Fits t)
    (severity : Severity) (message : String → String) :
    (DryRun.unlisted (r.text t) q table).map
        (fun found => (⟨severity, lineOf (r.text t) found.1.start, message found.2⟩ : Diagnostic))
      = ((DryRun.unlisted t q table).map
        (fun found => (⟨severity, lineOf t found.1.start, message found.2⟩ : Diagnostic))).map r.remark := by
  -- the names are the same, so that the same ones are filtered out; only the matches move
  have hfound : (q.findAll (r.text t)).map (fun m => (m, String.ofList (m.part .name (r.text t))))
      = ((q.findAll t).map (fun m => (m, String.ofList (m.part .name t)))).map
        (fun found => (found.1.moved (r.place t), found.2)) := by
    rw [findAll_text hq hfits, List.map_map, List.map_map]
    refine List.map_congr_left (fun m hm => ?_)
    simp only [Function.comp_apply, part_unbroken (found_of_mem_findAll hm) .name hname]
  unfold DryRun.unlisted
  rw [hfound, List.filter_map, List.map_map, List.map_map]
  refine List.map_congr_left (fun found hfilter => ?_)
  obtain ⟨m, hm, rfl⟩ := List.mem_map.mp (List.mem_of_mem_filter hfilter)
  have hline := lineOf_start (r := r) (found_of_mem_findAll hm)
  simp only [Function.comp_apply, remark, hline]

/-- The patterns of the names that are looked up, and those of the three habits that are warned of. -/
theorem steady_listed :
    r.Steady DryRun.drawCall ∧ r.Steady DryRun.stateReference ∧ r.Steady DryRun.seriesType
      ∧ r.Steady DryRun.rangedBool ∧ r.Steady DryRun.printCall ∧ r.Steady DryRun.overlaySetting :=
  ⟨steady_of_isSteady (by decide), steady_of_isSteady (by decide), steady_of_isSteady (by decide),
    steady_of_isSteady (by decide), steady_of_isSteady (by decide), steady_of_isSteady (by decide)⟩

/-- Drawing methods, states and types of series are each looked up in a table. -/
theorem drawErrors_text (hfits : r.Fits t) :
    DryRun.drawErrors p (r.text t) = (DryRun.drawErrors p t).map r.remark :=
  map_unlisted_text steady_listed.1 (by decide) p.drawMethods hfits .error
    (fun method => s!"Draw.{method} is not a known drawing method")

theorem stateErrors_text (hfits : r.Fits t) :
    DryRun.stateErrors p (r.text t) = (DryRun.stateErrors p t).map r.remark :=
  map_unlisted_text steady_listed.2.1 (by decide) p.states hfits .error
    (fun state =>
      let valid := String.intercalate ", " p.states
      s!"State.{state} is not a valid state (valid: {valid})")

theorem seriesWarnings_text (hfits : r.Fits t) :
    DryRun.seriesWarnings p (r.text t) = (DryRun.seriesWarnings p t).map r.remark :=
  map_unlisted_text steady_listed.2.2.1 (by decide) p.seriesTypes hfits .warning
    (fun type => s!"Series<{type}> is an unusual series type (expected double, bool or int)")

/-- Directives that the tables ask for. Their paths are known where line breaks are respelled;
elsewhere any path will do, since then the pattern only has to be local. -/
theorem steady_using (hserves : r.Serves p) {path : String} (hpath : path ∈ p.requiredUsings) :
    r.Steady (usingDirective path.toList) := by
  cases hr : r.returns with
  | true =>
    rw [hserves hr] at hpath
    obtain rfl : path = "System" := List.mem_singleton.mp hpath
    exact steady_of_isSteady (by decide)
  | false =>
    -- no carriage return comes in: a local pattern will do, and the path itself may be any text
    have hstart : ∀ c, isTerminator c = true → (usingDirective path.toList).NoStart [c] := by
      intro c hc
      unfold usingDirective
      rw [append_assoc, append_assoc, append_assoc]
      exact noStart_terminator (by decide) _ hc
    refine ⟨?_, hstart '\n' rfl, hstart '\r' rfl⟩
    rw [hr]
    apply standings_of_isLocal
    unfold usingDirective
    simp only [isLocal_append, isLocal_literal]
    decide

/-- Directives that the tables ask for and the script lacks. -/
theorem usingErrors_text (hserves : r.Serves p) (hfits : r.Fits t) :
    DryRun.usingErrors p (r.text t) = (DryRun.usingErrors p t).map r.remark := by
  unfold DryRun.usingErrors
  rw [List.map_flatMap]
  exact List.flatMap_congr (fun path hpath => require_text (steady_using hserves hpath) hfits _)

/-- Ranges on truth values, each with the name of its property. -/
theorem rangeWarnings_text (hfits : r.Fits t) :
    DryRun.rangeWarnings (r.text t) = (DryRun.rangeWarnings t).map r.remark := by
  unfold DryRun.rangeWarnings
  rw [findAll_text steady_listed.2.2.2.1 hfits, List.map_map, List.map_map]
  refine List.map_congr_left (fun m hm => ?_)
  have hfound := found_of_mem_findAll hm
  have hline := lineOf_start (r := r) hfound
  have hname := part_unbroken (r := r) hfound .name (by decide)
  simp only [Function.comp_apply, DryRun.warning, remark, hname, hline]

/-- Lines that are moved together stay apart. -/
theorem eraseDups_map_add (k : Nat) (ls : List Nat) :
    (ls.map (· + k)).eraseDups = ls.eraseDups.map (· + k) := by
  -- the duplicates of the first line are filtered out before the rest is looked at, so that the
  -- rest is shorter but no tail of the list
  induction hn : ls.length using Nat.strongRecOn generalizing ls with
  | _ n ih =>
    cases ls with
    | nil => rfl
    | cons l ls =>
      have hothers : (ls.map (· + k)).filter (fun b => !b == l + k)
          = (ls.filter (fun b => !b == l)).map (· + k) := by
        rw [List.filter_map]
        congr 1
        refine List.filter_congr (fun b _ => ?_)
        simp
      have hlength : (ls.filter (fun b => !b == l)).length < n := by
        rw [← hn, List.length_cons]
        exact Nat.lt_succ_of_le (List.length_filter_le _ ls)
      rw [List.map_cons, List.eraseDups_cons, hothers, ih _ hlength _ rfl, List.eraseDups_cons,
        List.map_cons]

/-- Calls that print, of which each line is reported once. Lines that are moved together stay apart,
so that the same calls share a line. -/
theorem printWarnings_text (hfits : r.Fits t) :
    DryRun.printWarnings (r.text t) = (DryRun.printWarnings t).map r.remark := by
  have hlines : (DryRun.printCall.findAll (r.text t)).map (fun m => lineOf (r.text t) m.start)
      = ((DryRun.printCall.findAll t).map (fun m => lineOf t m.start)).map (· + r.front) := by
    rw [findAll_text steady_listed.2.2.2.2.1 hfits, List.map_map, List.map_map]
    exact List.map_congr_left (fun m hm => lineOf_moved (found_of_mem_findAll hm))
  unfold DryRun.printWarnings
  rw [hlines, eraseDups_map_add, List.map_map, List.map_map]
  refine List.map_congr_left (fun line hline => ?_)
  -- a line that is reported is one of a match, hence not line zero: it moves
  obtain ⟨m, -, rfl⟩ := List.mem_map.mp (List.mem_eraseDups.mp hline)
  simp only [Function.comp_apply, DryRun.warning, remark, lineNo_of_pos (Nat.succ_pos _), lineOf]

/-- A missing setting of indicators. It is about the kind of the first class and the whole script. -/
theorem overlayWarnings_text (hfits : r.Fits t) :
    DryRun.overlayWarnings (r.text t) = (DryRun.overlayWarnings t).map r.remark := by
  unfold DryRun.overlayWarnings
  rw [find?_text steady_class hfits, occursIn_text steady_listed.2.2.2.2.2 hfits]
  cases hm : classDeclaration.find? t with
  | none => rfl
  | some m =>
    simp only [Option.map_some]
    rw [part_unbroken (found_of_find? hm) .kind (by decide)]
    split
    · rw [List.map_cons, List.map_nil, remark_whole _ rfl]
    · rfl

/-- **The dry run follows the script.** -/
theorem run_text (hserves : r.Serves p) {code : Text} (hfits : r.Fits code) :
    DryRun.run p (r.text code) = r.outcome (DryRun.run p code) := by
  have hmask := fits_mask hfits
  unfold DryRun.run DryRun.ofMasked outcome
  simp only [mask_text hfits, frameErrors_text hmask, drawErrors_text hmask, stateErrors_text hmask,
    usingErrors_text hserves hmask, seriesWarnings_text hmask, rangeWarnings_text hmask,
    printWarnings_text hmask, overlayWarnings_text hmask, ← List.map_append, List.isEmpty_map]

end Respacing

end ChartLint
