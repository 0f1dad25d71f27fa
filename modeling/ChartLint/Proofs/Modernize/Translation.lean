import ChartLint.Proofs.Modernize.Passes
import ChartLint.Proofs.Respacing.Skeleton
import ChartLint.Proofs.Respacing.Splice

/-!
# Modernizing a respaced script

A pass follows the script (`FollowsPass`) when it makes the same changes to the respaced script as to
the script, and brings no carriage return of its own. Passes that follow the script do so one after the
other (`FollowsPass.andThen`), so each pass is looked at alone: it finds what it looks for at the places
of its offsets, and splices there.

Two things are special to the imports. They are spelled with the line break of the script, so the script
has to show one (`Suits`); and without a region or a namespace they are put at the start, which is the
place of the start only if nothing is put in front. With that, the modernized respaced script is the
respaced modernized script, with the same changes (`run_text`).
-/

namespace ChartLint

/-- The same revision of the respaced script. -/
def Revision.respaced (r : Respacing) (rev : Revision) : Revision :=
  ⟨r.text rev.code, rev.changes⟩

namespace Modernize

open Pattern Lexing Text Source Respacing

variable {r : Respacing} {code : Text}

/-- **The pass follows the script.** -/
structure FollowsPass (r : Respacing) (pass : Text → Revision) (code : Text) : Prop where
  respaced : pass (r.text code) = (pass code).respaced r
  fits : r.Fits (pass code).code

/-- **Passes follow the script one after the other**, since what a pass leaves fits the respacing
again. -/
theorem FollowsPass.andThen {p q : Text → Revision} (hp : FollowsPass r p code)
    (hq : FollowsPass r q (p code).code) : FollowsPass r (fun code => (p code).andThen q) code where
  respaced := by
    have hnext : q (r.text (p code).code) = (q (p code).code).respaced r := hq.respaced
    simp only [hp.respaced, Revision.respaced, Revision.andThen, hnext]
  fits := hq.fits

/-! ## The namespace -/

/-- The patterns that decide about the kind and the imports are all steady. -/
theorem steady_observed {q : Pattern} (hq : q ∈ observed) : r.Steady q := by
  have hcheck : ∀ q ∈ observed, isSteady q = true := by
    decide +kernel
  exact steady_of_isSteady (hcheck q hq)

/-- **The kind** of a script does not hang on its spacing. -/
theorem kindFor_text (requested : Option String) (hfits : r.Fits code) :
    kindFor requested (r.text code) = kindFor requested code := by
  refine kindFor_congr (fun _ => ?_)
  rw [← occursIn_iff, ← occursIn_iff, mask_text hfits,
    occursIn_text (steady_observed (by simp [observed])) (fits_mask hfits)]

/-- The path of a namespace has no line break. -/
theorem unbroken_of_isPathChar {path : Text} (h : ∀ c ∈ path, isPathChar c = true) : Unbroken path :=
  ⟨not_mem_of_isPathChar h (by decide), not_mem_of_isPathChar h (by decide)⟩

theorem unbroken_expectedNamespace (kind : ScriptKind) : Unbroken kind.expectedNamespace.toList :=
  unbroken_of_isPathChar (expectedNamespace_path kind).1.2

/-- **The pass on the namespace.** The declared path is a stretch without line breaks, replaced at
its place. -/
theorem follows_fixNamespace (kind : ScriptKind) (hfits : r.Fits code) :
    FollowsPass r (fixNamespace kind) code where
  respaced := by
    unfold fixNamespace
    rw [mask_text hfits, find?_text steady_namespace (fits_mask hfits)]
    cases hm : namespaceDeclaration.find? (mask code) with
    | none => rfl
    | some m =>
      have hfound : Found namespaceDeclaration (ofCode code).masked m := found_of_find? hm
      -- the path is found in the mask and read in the code, which have the same places
      have hcurrent : (r.text code).within ((m.moved (r.place (mask code))).span .name)
          = code.within (m.span .name) := part_code hfound .name (by decide)
      have hle : (m.span .name).start ≤ code.length ∧ (m.span .name).stop ≤ code.length := by
        have hmasked := hfound.span_le .name
        rwa [(ofCode code).masked_eq, length_mask] at hmasked
      have hsplice := splice_text (r := r) hle.1 hle.2 kind.expectedNamespace.toList
      rw [inner_of_not_mem (unbroken_expectedNamespace kind).1] at hsplice
      simp only [Option.map_some, hcurrent]
      split
      · rfl
      · rw [span_moved, place_mask, Revision.respaced, hsplice]
  fits := by
    unfold fixNamespace
    split
    · exact hfits
    · simp only
      split
      · exact hfits
      · exact hfits.splice (fits_of_not_mem (unbroken_expectedNamespace kind).2) _ _

/-- The pass takes no line break out. -/
theorem mem_fixNamespace (kind : ScriptKind) (h : '\n' ∈ code) : '\n' ∈ (fixNamespace kind code).code := by
  rw [← List.count_pos_iff, count_fixNamespace]
  exact List.count_pos_iff.mpr h

/-- What is asked of a script for its line break to be known is true of what the pass leaves. -/
theorem suits_fixNamespace (kind : ScriptKind) (h : r.Suits code) :
    r.Suits (fixNamespace kind code).code where
  fits := (follows_fixNamespace kind h.fits).fits
  feed := fun hr => mem_fixNamespace kind (h.feed hr)

/-! ## The imports -/

section Masked

variable {masked : Text} (hfits : r.Fits masked)

include hfits

/-- The script needs the same imports, since the same patterns occur in it. -/
theorem requiredUsings_text : requiredUsings (r.text masked) = requiredUsings masked := by
  have hseen : ∀ q ∈ observed, q.occursIn (r.text masked) = q.occursIn masked :=
    fun q hq => occursIn_text (steady_observed hq) hfits
  rw [requiredUsings, hseen brushType (by simp [observed]), hseen listType (by simp [observed]),
    hseen queryCall (by simp [observed]), requiredUsings]

/-- It lacks the same ones. -/
theorem missingUsings_text : missingUsings (r.text masked) = missingUsings masked := by
  rw [missingUsings, requiredUsings_text hfits]
  refine List.filter_congr (fun path hpath => ?_)
  rw [occursIn_text (steady_observed (usingDirective_mem_observed (mem_importable hpath))) hfits]

omit hfits in
/-- The start of a line lies as far back as the line has characters in front of the offset. -/
theorem lineStartBefore_eq (t : Text) (n : Nat) :
    lineStartBefore t n = n - (lineFront (t.take n)).length := by
  obtain ⟨l, hl, hend⟩ := eq_append_lineFront (t.take n)
  have hfront : ∀ c ∈ (lineFront (t.take n)).reverse, (c != '\n') = true := by
    intro c hc
    rw [bne_iff_ne]
    rintro rfl
    exact not_mem_lineFront _ (List.mem_reverse.mp hc)
  -- in front of the line's own characters stands a line feed, or nothing
  have hrest : l.reverse.takeWhile (· != '\n') = [] := by
    cases hlast : l.reverse with
    | nil => rfl
    | cons c others =>
      have hc : c = '\n' := hend c (by rw [← List.head?_reverse, hlast]; rfl)
      rw [hc]
      rfl
  have hsplit := congrArg List.reverse hl
  rw [List.reverse_append] at hsplit
  rw [lineStartBefore, hsplit, List.takeWhile_append_of_pos hfront, hrest, List.append_nil,
    List.length_reverse]

omit hfits in
/-- A line starts at the place where it starts. -/
theorem lineStartBefore_text {n : Nat} (hn : n ≤ masked.length) :
    lineStartBefore (r.text masked) (r.place masked n) = r.place masked (lineStartBefore masked n) := by
  rw [lineStartBefore_eq, lineStartBefore_eq, take_text hn, lineFront_text, place_lineStart hn]

/-- **The imports go to the same place**: in front of the end of a region, in front of the namespace,
or to the start of the script. The last is why no lines may be put in front. -/
theorem usingsOffset_text (hfront : r.front = 0) :
    usingsOffset (r.text masked) = r.place masked (usingsOffset masked) := by
  have hline : ∀ m, namespaceDeclaration.find? masked = some m →
      lineStartBefore (r.text masked) (r.place masked m.start)
        = r.place masked (lineStartBefore masked m.start) := by
    intro m hm
    have hbounds := (found_of_find? hm).bounds
    exact lineStartBefore_text (Nat.le_trans hbounds.1 hbounds.2)
  have hstart : r.place masked 0 = 0 := by
    rw [place_zero, head, hfront]
    rfl
  rw [usingsOffset, find?_text (steady_of_isSteady (p := regionEnd) (by decide)) hfits,
    find?_text steady_namespace hfits, usingsOffset]
  -- with both found, the comparison of their starts comes out the same, since places keep the order
  cases regionEnd.find? masked with
  | none =>
    cases hm : namespaceDeclaration.find? masked with
    | none => exact hstart.symm
    | some m => exact hline m hm
  | some region =>
    cases hm : namespaceDeclaration.find? masked with
    | none => rfl
    | some m =>
      simp only [Option.map_some, Match.moved, (r.place_strictMono masked).lt_iff_lt, hline m hm]
      split <;> rfl

end Masked

/-- A directive has no line break of its own. -/
theorem unbroken_directive {path : String} (h : path ∈ importable) : Unbroken (directive path).toList := by
  have htext : (directive path).toList = "using ".toList ++ (path.toList ++ [';']) := by
    simp [directive, toString]
  obtain ⟨hfeed, hreturn⟩ := unbroken_of_isPathChar (path_of_mem_importable h).2
  rw [Unbroken, htext]
  simp only [List.mem_append, not_or]
  exact ⟨⟨by decide, hfeed, by decide⟩, by decide, hreturn, by decide⟩

/-- A block of imports is respelled by respelling the line break between its lines. -/
theorem inner_importBlock (newline : Text) {paths : List String} (h : ∀ path ∈ paths, path ∈ importable) :
    r.inner (importBlock newline paths) = importBlock (r.inner newline) paths := by
  rw [importBlock, Respacing.inner, List.flatMap_assoc]
  refine List.flatMap_congr (fun path hpath => ?_)
  have hdirective := inner_of_not_mem (r := r) (unbroken_directive (h path hpath)).1
  show r.inner (importLine newline path) = _
  rw [importLine, inner_append, hdirective, importLine]

theorem fits_importBlock {newline : Text} (hnewline : r.Fits newline) {paths : List String}
    (h : ∀ path ∈ paths, path ∈ importable) : r.Fits (importBlock newline paths) := by
  intro hr hmem
  obtain ⟨path, hpath, hline⟩ := List.mem_flatMap.mp hmem
  rcases List.mem_append.mp hline with hdirective | hbreak
  · exact (unbroken_directive (h path hpath)).2 hdirective
  · exact hnewline hr hbreak

/-- What the pass on imports does, with its two decisions next to each other. -/
theorem fixUsings_eq (code : Text) :
    fixUsings code =
      if (missingUsings (mask code)).isEmpty then ⟨code, []⟩
      else
        ⟨Text.insertAt code (usingsOffset (mask code))
            (importBlock (lineBreak code) (missingUsings (mask code))),
          [⟨s!"{(missingUsings (mask code)).length} using directive(s) added", "",
            String.intercalate ", " ((missingUsings (mask code)).map directive)⟩]⟩ :=
  rfl

/-- **The pass on imports** puts the same lines in at the same place, with the line break of the
script. -/
theorem follows_fixUsings (hfront : r.front = 0) (h : r.Suits code) : FollowsPass r fixUsings code where
  respaced := by
    have hmasked := fits_mask h.fits
    have hoffset : usingsOffset (mask code) ≤ code.length := by
      obtain ⟨a, b, hsplit, heq, -⟩ := usingsOffset_spec (mask code)
      have hlength := congrArg List.length hsplit
      rw [length_mask, List.length_append] at hlength
      omega
    rw [fixUsings_eq, fixUsings_eq, mask_text h.fits, missingUsings_text hmasked,
      usingsOffset_text hmasked hfront, place_mask, lineBreak_text h,
      ← inner_importBlock _ (missing_importable _), insertAt_text hoffset]
    split <;> rfl
  fits := by
    rw [fixUsings_eq]
    split
    · exact h.fits
    · exact h.fits.splice (fits_importBlock (fits_lineBreak h.fits) (missing_importable _)) _ _

/-! ## The replacements -/

/-- The last match is replaced first. -/
theorem replaceMatches_cons (new : Text) (m : Match) (ms : List Match) (code : Text) :
    replaceMatches new (m :: ms) code = (replaceMatches new ms code).splice m.start m.stop new :=
  rfl

/-- The text in front of the matches stays. -/
theorem take_replaceMatches {p : Pattern} {x : Option Char} {pos : Nat} {t : Text} {ms : List Match}
    (h : Cuts p x pos t ms) (new code : Text) (hpos : pos + t.length ≤ code.length) :
    (replaceMatches new ms code).take pos = code.take pos := by
  induction h with
  | done => rfl
  | @next x pos g w t m ms _ _ chosen stop _ ih =>
    obtain ⟨-, -, -, -, hstart, -⟩ := accepts_of_matchAt? chosen
    simp only [List.length_append] at hpos
    -- the matches behind are replaced first and leave the text up to the end of this one
    have hothers := ih (by omega)
    have hfront : ∀ n, n ≤ pos + g.length + w.length →
        (replaceMatches new ms code).take n = code.take n := by
      intro n hn
      rw [← Nat.min_eq_left hn, ← List.take_take, hothers, List.take_take]
    have hlength : m.start ≤ (replaceMatches new ms code).length := by
      have hcut := congrArg List.length (hfront m.start (by omega))
      rw [List.length_take, List.length_take] at hcut
      omega
    rw [replaceMatches_cons, take_splice (by omega) hlength]
    exact hfront pos (by omega)

/-- **Replaced matches** are replaced at their places. -/
theorem replaceMatches_text {p : Pattern} {x : Option Char} {pos : Nat} {t : Text} {ms : List Match}
    (h : Cuts p x pos t ms) {new : Text} (hnew : r.inner new = new) (code : Text)
    (hpos : pos + t.length ≤ code.length) :
    replaceMatches new (ms.map (Match.moved (r.place code))) (r.text code)
      = r.text (replaceMatches new ms code) := by
  induction h with
  | done => rfl
  | @next x pos g w t m ms _ _ chosen stop others ih =>
    obtain ⟨-, -, -, -, hstart, -⟩ := accepts_of_matchAt? chosen
    simp only [List.length_append] at hpos
    -- up to the end of the match the places are those of the script
    have htake := take_replaceMatches others new code (by omega)
    have hlength := congrArg List.length htake
    rw [List.length_take, List.length_take] at hlength
    have hplace : ∀ n, n ≤ pos + g.length + w.length →
        r.place code n = r.place (replaceMatches new ms code) n := by
      intro n hn
      rw [← place_take hn, ← htake, place_take hn]
    have hsplice := splice_text (r := r) (t := replaceMatches new ms code) (a := m.start) (b := m.stop)
      (by omega) (by omega) new
    rw [hnew, ← hplace m.start (by omega), ← hplace m.stop (by omega)] at hsplice
    rw [List.map_cons, replaceMatches_cons, replaceMatches_cons, ih (by omega)]
    exact hsplice

/-- Replacing matches brings in no carriage return. -/
theorem fits_replaceMatches {new : Text} (hnew : r.Fits new) (ms : List Match) (hfits : r.Fits code) :
    r.Fits (replaceMatches new ms code) := by
  induction ms with
  | nil => exact hfits
  | cons m ms ih => exact ih.splice hnew _ _

/-- What takes the place of legacy code has no line break. -/
theorem unbroken_new {rep : Replacement} (h : rep ∈ legacy) : Unbroken rep.new.toList := by
  have hshapes : ∀ shape ∈ drawnShapes, '\n' ∉ shape.toList ∧ '\r' ∉ shape.toList := by
    decide +kernel
  have hflags : ∀ flag ∈ calculateFlags, '\n' ∉ flag.2.toList ∧ '\r' ∉ flag.2.toList := by
    decide +kernel
  rcases mem_legacy h with ⟨shape, hshape, rfl⟩ | ⟨flag, hflag, rfl⟩
  · obtain ⟨hfeed, hreturn⟩ := hshapes shape hshape
    rw [Unbroken, new_drawingReplacement]
    simp only [List.mem_append, not_or]
    exact ⟨⟨by decide, hfeed⟩, by decide, hreturn⟩
  · obtain ⟨hfeed, hreturn⟩ := hflags flag hflag
    rw [Unbroken, new_calculateReplacement]
    simp only [List.mem_append, not_or]
    exact ⟨⟨by decide, hfeed, by decide⟩, by decide, hreturn, by decide⟩

theorem steady_legacy {rep : Replacement} (h : rep ∈ legacy) : r.Steady rep.shape := by
  have hcheck : ∀ rep ∈ legacy, isSteady rep.shape = true := by
    decide +kernel
  exact steady_of_isSteady (hcheck rep h)

/-- **One replacement** has the same matches, and replaces each at its place. -/
theorem follows_apply {rep : Replacement} (h : rep ∈ legacy) (hfits : r.Fits code) :
    FollowsPass r rep.apply code where
  respaced := by
    have hmatches := findAll_text (steady_legacy (r := r) h) (fits_mask hfits)
    -- the matches are cut out of the mask; the replacement is made in the code, of equal length
    have hcuts := cuts_findAll (fits_of_mem_legacy h).consumes (mask code)
    have hcode := replaceMatches_text hcuts (inner_of_not_mem (r := r) (unbroken_new h).1) code
      (by rw [length_mask, Nat.zero_add])
    unfold Replacement.apply
    rw [mask_text hfits, hmatches, place_mask]
    cases hms : rep.shape.findAll (mask code) with
    | nil => rfl
    | cons m ms =>
      rw [hms, List.map_cons] at hcode
      simp only [List.map_cons, Revision.respaced, hcode]
  fits := by
    rw [apply_code]
    exact fits_replaceMatches (fits_of_not_mem (unbroken_new h).2) _ hfits

/-- **All replacements.** The list is taken from the front; each finds the text that the ones before
it leave. -/
theorem follows_applyAll {rs : List Replacement} (h : ∀ rep ∈ rs, rep ∈ legacy) (hfits : r.Fits code) :
    FollowsPass r (applyAll rs) code := by
  induction rs generalizing code with
  | nil => exact ⟨rfl, hfits⟩
  | cons rep rs ih =>
    have hfirst := follows_apply (h rep List.mem_cons_self) hfits
    have hothers := ih (fun other hother => h other (List.mem_cons_of_mem rep hother)) hfirst.fits
    have hboth := hfirst.andThen hothers
    rw [show applyAll (rep :: rs) = fun code => (rep.apply code).andThen (applyAll rs) from
      funext (applyAll_cons rep rs)]
    exact hboth

/-! ## All passes -/

/-- **The modernization of a respaced script** is the respaced modernization, with the same changes
and under the same kind. -/
theorem run_text (requested : Option String) (hfront : r.front = 0) (h : r.Suits code) :
    run requested (r.text code)
      = ⟨(run requested code).kind, (run requested code).revision.respaced r⟩ := by
  have hkind := kindFor_text requested h.fits
  have hnamespace := follows_fixNamespace (kindFor requested code) h.fits
  have himports := hnamespace.andThen
    (follows_fixUsings hfront (suits_fixNamespace (kindFor requested code) h))
  have hall := himports.andThen (follows_applyAll (fun rep hrep => hrep) himports.fits)
  have hrevision : (run requested (r.text code)).revision = (run requested code).revision.respaced r := by
    rw [run_revision, run_revision, hkind]
    exact hall.respaced
  rw [← hrevision, show (run requested code).kind = kindFor requested code from rfl, ← hkind]
  rfl

end Modernize

end ChartLint
