import ChartLint.Proofs.Lexing.Tokens
import ChartLint.Proofs.Modernize.Passes
import ChartLint.Proofs.Pattern.Kept

/-!
# Comments and literals of a modernized script

The passes look for what they change on the mask, where a comment is a run of blanks, and change the script. The
namespace pass and the drawing calls replace visible code only, so no comment and no literal is touched. Two things
can go wrong. The directives are put at the start of a line, which may lie inside of a token; and the flag for the
mode of calculation may have comments between its words, which go with it. `tokens_run_iff` says that these are
the only two: else (`Spares`) a modernized script has the comments and literals that it had.
-/

namespace ChartLint.Modernize

open Pattern Lexing Text Source

/-- What is left of what is left is the whole only if both times all is left. -/
theorem sublist_eq_iff {a b c : List Text} (hab : a.Sublist b) (hbc : b.Sublist c) :
    a = c ↔ a = b ∧ b = c := by
  constructor
  · rintro rfl
    exact ⟨hab.antisymm hbc, hbc.antisymm hab⟩
  · rintro ⟨rfl, rfl⟩
    rfl

/-! ## The namespace -/

/-- Path characters are read without what follows them, and open nothing. -/
theorem settled_of_isPathChar {c : Char} (hc : isPathChar c = true) :
    isSettled c = true := by
  have hne : ∀ d, isPathChar d = false → c ≠ d := fun _ => ne_of_class hc
  have hslash := hne '/' (by decide)
  have hstar := hne '*' (by decide)
  have hquote := hne '"' (by decide)
  have hat := hne '@' (by decide)
  have hdollar := hne '$' (by decide)
  have hback := hne '\\' (by decide)
  simp [isSettled, *]

theorem isInert_of_isPathChar {c : Char} (hc : isPathChar c = true) : isInert c = true := by
  have hsettled := settled_of_isPathChar hc
  have hquote : c ≠ '\'' := ne_of_class hc (by decide)
  simp only [isSettled, isInert, Bool.not_eq_true', Bool.or_eq_false_iff, beq_eq_false_iff_ne]
    at hsettled ⊢
  tauto

/-- **The namespace pass keeps the tokens.** -/
theorem tokens_fixNamespace (kind : ScriptKind) (code : Text) :
    tokens (fixNamespace kind code).code = tokens code := by
  by_cases hocc : namespaceDeclaration.Occurs none (mask code)
  · obtain ⟨g, s, path, r, h⟩ := exists_declares hocc
    rw [fixNamespace_of_declares kind h]
    split
    · rfl
    · obtain ⟨hexpected, hinert⟩ := expectedNamespace_path kind
      obtain ⟨c, d, hfirst, hlast, hc, hd⟩ := exists_ends_of_isPathChar h.path
      obtain ⟨e, -, hnew, -, he, -⟩ := exists_ends_of_isPathChar hexpected
      obtain ⟨before, after, hcode, hchanged⟩ := tokens_splice h.cut hfirst (visible_of_isPathChar hc).1
        (visible_of_isPathChar hc).2 hlast (visible_of_isPathChar hd).1 (settled_of_isPathChar hd) hnew
        (visible_of_isPathChar he).2 hinert
      have hcurrent := slice_of_visible h.cut (fun c hc => (visible_of_isPathChar (h.path.2 c hc)).1)
      rw [hcurrent, tokens_of_isInert (fun c hc => isInert_of_isPathChar (h.path.2 c hc)),
        List.nil_append] at hcode
      rw [hcode]
      exact hchanged
  · rw [fixNamespace_of_not_occurs kind hocc]

/-! ## The imports -/

/-- The directives are put outside of comments and literals, or there are none to put. -/
def ImportsApart (code : Text) : Prop :=
  missingUsings (mask code) = [] ∨ Outside code (usingsOffset (mask code))

/-- **The imports pass** keeps the tokens where it puts its directives outside of them. Where it puts them into a
token there are as many tokens as before, and together they are longer. -/
theorem tokens_fixUsings (code : Text) :
    (ImportsApart code ∧ tokens (fixUsings code).code = tokens code)
      ∨ (¬ ImportsApart code ∧ (tokens (fixUsings code).code).length = (tokens code).length
        ∧ tokens (fixUsings code).code ≠ tokens code) := by
  by_cases hmissing : missingUsings (mask code) = []
  · rw [fixUsings_of_missing_nil hmissing]
    exact .inl ⟨.inl hmissing, rfl⟩
  · obtain ⟨a, b, hsplit, hoffset, ha, -⟩ := usingsOffset_spec (mask code)
    have hline := startsLine_of_split hsplit ha
    rw [ImportsApart, or_iff_right hmissing, (code_fixUsings hmissing).1, hoffset]
    have hblock := fun c => mem_importBlock (c := c) (lineBreak_mem code) (missing_importable (mask code))
    by_cases hout : Outside code a.length
    · exact .inl ⟨hout, tokens_insertAt hout hline.settled fun c hc => (hblock c hc).1⟩
    · obtain ⟨hcount, hlength⟩ := length_tokens_insertAt_inside hline hout
        (unclosing_of_forall fun c hc => (hblock c hc).2)
      refine .inr ⟨hout, hcount, ?_⟩
      intro heq
      have hnil : importBlock (lineBreak code) (missingUsings (mask code)) = [] := by
        rw [heq] at hlength
        rw [← List.length_eq_zero_iff]
        omega
      obtain ⟨path, paths, hcons⟩ := List.exists_cons_of_ne_nil hmissing
      rw [hcons, importBlock, List.flatMap_cons, List.append_eq_nil_iff] at hnil
      have hpath : path ∈ importable := missing_importable (mask code) path (by simp [hcons])
      rw [(importLine_text (lineBreak_mem code) hpath).1] at hnil
      cases hnil.1

/-! ## The replacements -/

/-- No match of the replacement has a comment or literal in it. -/
def Replacement.Spares (rep : Replacement) (code : Text) : Prop :=
  ∀ m ∈ rep.shape.findAll (mask code), tokens (slice code m.start m.stop) = []

instance (rep : Replacement) (code : Text) : Decidable (rep.Spares code) :=
  inferInstanceAs (Decidable (∀ m ∈ rep.shape.findAll (mask code), _ = _))

theorem settled_of_mem_legacy {rep : Replacement} (h : rep ∈ legacy) {c : Char}
    (hc : rep.new.toList.getLast? = some c) : isSettled c = true := by
  have hcheck : ∀ rep ∈ legacy, rep.new.toList.getLast?.all isSettled = true := by
    decide +kernel
  have hall := hcheck rep h
  rw [hc] at hall
  exact hall

/-- The matches are replaced with the tokens in them; a front without matches stays. -/
theorem tokens_of_cuts {rep : Replacement} (hrep : rep ∈ legacy) {x : Option Char} {pos : Nat} {t : Text}
    {ms : List Match} (h : Cuts rep.shape x pos t ms) {code pre : Text} (hpre : pre.length = pos)
    (hmask : mask code = pre ++ t) :
    (replaceMatches rep.new.toList ms code).take pos = code.take pos
      ∧ (tokens (replaceMatches rep.new.toList ms code)).Sublist (tokens code)
      ∧ (tokens (replaceMatches rep.new.toList ms code) = tokens code
        ↔ ∀ m ∈ ms, tokens (slice code m.start m.stop) = []) := by
  have hfits := fits_of_mem_legacy hrep
  induction h generalizing pre with
  | done => exact ⟨rfl, List.Sublist.refl _, by simp [replaceMatches]⟩
  | @next x pos g w r m ms before covers chosen stop others ih =>
    have hlen : (pre ++ g ++ w).length = pos + g.length + w.length := by
      simp [hpre, Nat.add_assoc]
    obtain ⟨hfront, hsub, hiff⟩ := ih hlen (by rw [hmask]; simp)
    obtain ⟨r', -, hreplaced⟩ := replaced_of_cuts hfits others
    have hrest := hreplaced code (pre ++ g ++ w) hlen (by rw [hmask]; simp)
    -- the match itself, in the script in which the later ones are replaced
    obtain ⟨c, hwhead, hnewhead, hvisible, hneutral⟩ := hfits.head _ _ _ covers
    obtain ⟨d, hwlast, hnewlast, hvisible'⟩ := hfits.last _ _ _ covers
    obtain ⟨back, ahead, hcode, hchanged⟩ := tokens_splice hrest hwhead hvisible hneutral hwlast hvisible'
      (settled_of_mem_legacy hrep hnewlast) hnewhead hneutral hfits.inert
    have hbounds := bounds_of_chosen hpre chosen stop
    have hstop : m.stop = pos + g.length + w.length := stop
    rw [hbounds.2, hbounds.1] at hcode hchanged
    have hslice : slice (replaceMatches rep.new.toList ms code) m.start m.stop
        = slice code m.start m.stop := by
      rw [slice, slice, hstop, hfront]
    rw [hslice] at hcode
    have hstep : (tokens (splice (replaceMatches rep.new.toList ms code) m.start m.stop
        rep.new.toList)).Sublist (tokens (replaceMatches rep.new.toList ms code)) := by
      rw [hcode, hchanged]
      exact (List.sublist_append_right _ ahead).append_left back
    refine ⟨?_, hstep.trans hsub, ?_⟩
    · show (splice (replaceMatches rep.new.toList ms code) m.start m.stop rep.new.toList).take pos
        = code.take pos
      have hle : pos ≤ m.start := by
        rw [← hbounds.1, List.length_append]
        omega
      have hbound : m.start ≤ (replaceMatches rep.new.toList ms code).length := by
        rw [← length_mask, hrest, ← hbounds.1]
        simp only [List.length_append]
        omega
      rw [take_splice hle hbound]
      have hshort := congrArg (List.take pos) hfront
      rwa [List.take_take, List.take_take, Nat.min_eq_left (by omega)] at hshort
    · show tokens (splice (replaceMatches rep.new.toList ms code) m.start m.stop rep.new.toList)
        = tokens code ↔ _
      rw [sublist_eq_iff hstep hsub, hiff, hchanged, hcode, List.forall_mem_cons]
      refine and_congr_left fun _ => ?_
      simp

/-- **A replacement** leaves the tokens that are not in a match. -/
theorem Replacement.tokens_apply {rep : Replacement} (hrep : rep ∈ legacy) (code : Text) :
    (tokens (rep.apply code).code).Sublist (tokens code)
      ∧ (tokens (rep.apply code).code = tokens code ↔ rep.Spares code) := by
  have hcuts := cuts_findAll (fits_of_mem_legacy hrep).consumes (mask code)
  have hmask : mask code = [] ++ mask code := rfl
  rw [apply_code]
  exact (tokens_of_cuts hrep hcuts rfl hmask).2

/-- A drawing call has no tokens in it. -/
theorem spares_drawingReplacement {shape : String} (hshape : shape ∈ drawnShapes) (code : Text) :
    (drawingReplacement shape).Spares code := by
  have hvisible : ∀ shape ∈ drawnShapes,
      ("Draw".toList ++ shape.toList).all (fun c => isVisible c && isInert c) = true := by
    decide +kernel
  intro m hm
  obtain ⟨g, y, x, hmask, hmatch⟩ := found_of_mem_findAll hm
  obtain ⟨w, r, rfl, hacc, hstart, hstop⟩ := accepts_of_matchAt? hmatch
  have hw : ∀ c ∈ w, isVisible c = true ∧ isInert c = true := by
    intro c hc
    rw [eq_of_accepts_legacyDrawing hacc] at hc
    simpa using List.all_eq_true.mp (hvisible shape hshape) c hc
  have hcut : mask code = g ++ w ++ r := by rw [hmask, List.append_assoc]
  rw [hstart, hstop, slice_of_visible hcut fun c hc => (hw c hc).1]
  exact tokens_of_isInert fun c hc => (hw c hc).2

/-- Each of several replacements spares the tokens of the script that it meets. -/
def SparesAll : List Replacement → Text → Prop
  | [], _ => True
  | rep :: rs, code => rep.Spares code ∧ SparesAll rs (rep.apply code).code

theorem sparesAll_append (rs rs' : List Replacement) (code : Text) :
    SparesAll (rs ++ rs') code ↔ SparesAll rs code ∧ SparesAll rs' (applyAll rs code).code := by
  induction rs generalizing code with
  | nil =>
    show SparesAll rs' code ↔ True ∧ SparesAll rs' code
    rw [true_and]
  | cons rep rs ih =>
    rw [applyAll_cons]
    show _ ∧ SparesAll (rs ++ rs') _ ↔ (_ ∧ SparesAll rs _) ∧ SparesAll rs' (applyAll rs (rep.apply code).code).code
    rw [ih, and_assoc]

theorem sparesAll_of_forall {rs : List Replacement} (h : ∀ rep ∈ rs, ∀ code, rep.Spares code) (code : Text) :
    SparesAll rs code := by
  induction rs generalizing code with
  | nil => trivial
  | cons rep rs ih =>
    rw [List.forall_mem_cons] at h
    exact ⟨h.1 code, ih h.2 _⟩

/-- Of the replacements only that of the flag can take a token with it. -/
theorem sparesAll_legacy (code : Text) :
    SparesAll legacy code
      ↔ SparesAll (calculateFlags.map (fun (flag, mode) => calculateReplacement flag mode))
        (fixDrawings code).code := by
  rw [legacy, sparesAll_append]
  refine and_iff_right (sparesAll_of_forall ?_ code)
  intro rep hrep
  obtain ⟨shape, hshape, rfl⟩ := List.mem_map.mp hrep
  exact spares_drawingReplacement hshape

/-- **The replacements in a row.** -/
theorem tokens_applyAll {rs : List Replacement} (hrs : ∀ rep ∈ rs, rep ∈ legacy) (code : Text) :
    (tokens (applyAll rs code).code).Sublist (tokens code)
      ∧ (tokens (applyAll rs code).code = tokens code ↔ SparesAll rs code) := by
  induction rs generalizing code with
  | nil => exact ⟨List.Sublist.refl _, iff_of_true rfl trivial⟩
  | cons rep rs ih =>
    rw [List.forall_mem_cons] at hrs
    obtain ⟨hsub, hiff⟩ := Replacement.tokens_apply hrs.1 code
    obtain ⟨hsub', hiff'⟩ := ih hrs.2 (rep.apply code).code
    rw [applyAll_cons]
    refine ⟨hsub'.trans hsub, ?_⟩
    show tokens (applyAll rs (rep.apply code).code).code = tokens code ↔ _ ∧ _
    rw [sublist_eq_iff hsub' hsub, hiff, hiff', and_comm]

/-! ## All passes -/

/-- A modernization spares the comments and literals of a script: the directives are put outside of them, and the
flag for the mode of calculation has none between its words. -/
def Spares (requested : Option String) (code : Text) : Prop :=
  let placed := (fixNamespace (kindFor requested code) code).code
  let drawn := (fixDrawings (fixUsings placed).code).code
  ImportsApart placed
    ∧ SparesAll (calculateFlags.map (fun (flag, mode) => calculateReplacement flag mode)) drawn

/-- **Comments and literals of a modernized script:** they are those of the script exactly if the modernization
spares them. -/
theorem tokens_run_iff (requested : Option String) (code : Text) :
    tokens (run requested code).revision.code = tokens code ↔ Spares requested code := by
  have hplaced := tokens_fixNamespace (kindFor requested code) code
  have hcode : (run requested code).revision.code
      = (applyAll legacy (fixUsings (fixNamespace (kindFor requested code) code).code).code).code := by
    simp only [run_revision, Revision.andThen]
  rw [hcode, Spares, ← sparesAll_legacy, ← hplaced]
  generalize (fixNamespace (kindFor requested code) code).code = placed
  obtain ⟨hsub, hiff⟩ := tokens_applyAll (fun rep hrep => hrep) (fixUsings placed).code
  rcases tokens_fixUsings placed with ⟨hapart, heq⟩ | ⟨hapart, hcount, hne⟩
  · rw [and_iff_right hapart, ← hiff, heq]
  · -- as many tokens in the end as at the start: all of them are left, so the longer one is
    refine iff_of_false (fun hsame => ?_) (fun hspares => hapart hspares.1)
    have hall := hsub.eq_of_length (by rw [hsame, hcount])
    exact hne (hall.symm.trans hsame)

/-- The directives come to stand in a comment that ends on the line of the namespace. -/
theorem tokens_run_comment :
    let code := "/*\n*/ namespace X".toList
    tokens (run none code).revision.code ≠ tokens code := by
  decide +kernel

/-- A comment in the assignment of the flag goes with it. -/
example : ¬ (calculateReplacement "true" "OnBarClose").Spares "CalculateOnBarClose /* c */ = true;".toList := by
  decide +kernel

end ChartLint.Modernize
