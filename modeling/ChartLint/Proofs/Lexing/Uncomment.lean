import ChartLint.Proofs.Lexing.Segmentation
import ChartLint.Proofs.Lexing.Layout
import ChartLint.Proofs.Source.Lookup

/-!
# A script without its comments

`uncomment` blanks the comments of a script and keeps its literals. The scanner reads the uncommented
text as it reads the script, only that it stays outside where the script is in a comment
(`step_uncomment`); so the script and its uncommented twin have one mask (`mask_uncomment`).

Offset by offset, a character is blanked where it lies in a comment and kept elsewhere
(`getElem?_uncomment`), and a comment is entered at a slash (`exists_slash_of_inComment`).
-/

namespace ChartLint.Lexing

/-! ## Uncommenting from a state -/

/-- Whether a region belongs to a comment. -/
def Region.isComment : Region → Bool
  | .token .comment _ => true
  | _ => false

/-- What uncommenting shows of a character. -/
def kept (region : Region) (c : Char) : Char :=
  if region.isComment then blankOut c else c

/-- A text, read on from a state, with its comments blanked. -/
def uncommentFrom (s : State) (t : Text) : Text :=
  List.zipWith (fun c region => kept region c) t (regionsFrom s t)

theorem uncomment_eq_uncommentFrom (t : Text) : uncomment t = uncommentFrom .ground t :=
  rfl

theorem uncommentFrom_cons (s : State) (c : Char) (rest : Text) :
    uncommentFrom s (c :: rest)
      = kept (step s c rest).1 c :: uncommentFrom (step s c rest).2 rest :=
  rfl

/-- A character that uncommenting may show in place of `c`: the character itself, or its blank. -/
theorem kept_eq (region : Region) (c : Char) : kept region c = c ∨ kept region c = blankOut c := by
  unfold kept
  split
  · exact .inr rfl
  · exact .inl rfl

/-- Uncommenting neither makes nor removes a line terminator. -/
theorem isTerminator_kept (region : Region) (c : Char) :
    Text.isTerminator (kept region c) = Text.isTerminator c := by
  rcases kept_eq region c with h | h
  · rw [h]
  · rw [h, isTerminator_blankOut]

/-- What is visible behind uncommenting is the script's own. -/
theorem eq_of_isVisible_kept {region : Region} {c : Char} (h : isVisible (kept region c) = true) :
    kept region c = c := by
  rcases kept_eq region c with heq | heq
  · exact heq
  · rw [heq, isVisible_blankOut] at h
    cases h

/-- Visible text at the front of an uncommented text is at the front of the text. -/
theorem prefix_of_prefix_uncommentFrom {w : Text} (hw : w.all isVisible = true) {s : State} {t : Text}
    (h : w <+: uncommentFrom s t) : w <+: t := by
  induction w generalizing s t with
  | nil => exact List.nil_prefix
  | cons x w ih =>
    cases t with
    | nil => cases List.prefix_nil.mp h
    | cons c rest =>
      rw [uncommentFrom_cons, List.cons_prefix_cons] at h
      rw [List.all_cons, Bool.and_eq_true] at hw
      have hc : kept (step s c rest).1 c = c := eq_of_isVisible_kept (by rw [← h.1]; exact hw.1)
      rw [List.cons_prefix_cons, h.1, hc]
      exact ⟨rfl, ih hw.2 h.2⟩

/-! ## The scanner on uncommented text -/

/-- The region of a character whose comment has been blanked. -/
def Region.quiet (region : Region) : Region :=
  if region.isComment then .code else region

/-- The state in which the scanner reads the uncommented text: outside where the script is in a
comment. -/
def State.quiet (s : State) : State :=
  if s.mode.region.isComment then .ground else s

/-- A blank is read as code. -/
theorem step_ground_blankOut (c : Char) (rest : Text) :
    step .ground (blankOut c) rest = (.code, .ground) :=
  stepGround_of_not_isVisible (isVisible_blankOut c) rest

/-- A character that opens nothing in a script opens nothing without the comments behind it. -/
theorem stepGround_uncommentFrom {s : State} {c : Char} {rest : Text}
    (h : stepGround c rest = (.code, .ground)) :
    stepGround c (uncommentFrom s rest) = (.code, .ground) := by
  generalize hfront : uncommentFrom s rest = front
  -- the characters behind an opener are visible, so they are the script's own
  have hback : ∀ w tail : Text, front = w ++ tail → w.all isVisible = true → w <+: rest := by
    intro w tail heq hw
    exact prefix_of_prefix_uncommentFrom hw ⟨tail, by rw [hfront, heq]⟩
  unfold stepGround
  split
  · obtain ⟨tail, rfl⟩ := hback ['/'] _ rfl rfl
    cases h
  · obtain ⟨tail, rfl⟩ := hback ['*'] _ rfl rfl
    cases h
  · obtain ⟨tail, rfl⟩ := hback ['"'] _ rfl rfl
    cases h
  · obtain ⟨tail, rfl⟩ := hback ['$', '"'] _ rfl rfl
    cases h
  · obtain ⟨tail, rfl⟩ := hback ['@', '"'] _ rfl rfl
    cases h
  · obtain ⟨tail, rfl⟩ := hback ['"'] _ rfl rfl
    cases h
  · cases h
  · cases h
  · rfl

/-- A step outside: a comment is passed as a blank, and what a literal's opener needs to see ahead is
held by the literal, so it is still there. -/
theorem stepGround_uncomment (c : Char) (rest : Text) :
    stepGround (kept (stepGround c rest).1 c) (uncommentFrom (stepGround c rest).2 rest)
      = ((stepGround c rest).1.quiet, (stepGround c rest).2.quiet) := by
  by_cases hcode : stepGround c rest = (.code, .ground)
  · rw [hcode]
    exact stepGround_uncommentFrom hcode
  · revert hcode
    fun_cases stepGround c rest
    all_goals intro hcode
    all_goals first | rfl | exact absurd rfl hcode

/-- A step inside of a literal sees ahead what it saw in the script. -/
theorem stepInside_uncommentFrom {mode : Mode} (hmode : mode.region.isComment = false) (c : Char)
    (rest : Text) :
    stepInside mode c (uncommentFrom (stepInside mode c rest) rest) = stepInside mode c rest := by
  cases mode with
  | lineComment | blockComment | blockEnd => cases hmode
  | ground => rfl
  | verbatim =>
    by_cases hquote : rest.head? = some '"'
    · obtain ⟨tail, rfl⟩ := List.head?_eq_some_iff.mp hquote
      simp only [stepInside, List.head?_cons]
      split <;> rfl
    · have hfront : ∀ s, (uncommentFrom s rest).head? ≠ some '"' := by
        intro s hhead
        obtain ⟨tail, heq⟩ := List.head?_eq_some_iff.mp hhead
        obtain ⟨tail, rfl⟩ := prefix_of_prefix_uncommentFrom (w := ['"']) rfl ⟨tail, heq.symm⟩
        exact hquote rfl
      simp only [stepInside, beq_false_of_ne hquote, beq_false_of_ne (hfront _)]
  | quoted quote =>
    cases rest with
    | nil =>
      simp only [stepInside]
      split <;> rfl
    | cons d tail =>
      simp only [stepInside, uncommentFrom_cons, guards, isTerminator_kept]
      rfl

/-- A step inside of a token stays with its kind or leaves it. -/
theorem quiet_stepInside (mode : Mode) (c : Char) (rest : Text) :
    (stepInside mode c rest).quiet
      = if mode.region.isComment then .ground else stepInside mode c rest := by
  cases mode with
  | ground | blockEnd | lineComment => rfl
  | blockComment =>
    simp only [stepInside]
    split <;> rfl
  | verbatim =>
    simp only [stepInside]
    split
    · rfl
    · split <;> rfl
  | quoted quote =>
    simp only [stepInside]
    split
    · rfl
    · split <;> rfl

/-- **One step over the uncommented text** goes where the step over the script went. -/
theorem step_uncomment {s : State} {c : Char} {rest : Text} (hs : Anchored s (c :: rest)) :
    step s.quiet (kept (step s c rest).1 c) (uncommentFrom (step s c rest).2 rest)
      = ((step s c rest).1.quiet, (step s c rest).2.quiet) := by
  obtain ⟨mode, held⟩ := s
  by_cases hground : mode = .ground
  · subst hground
    obtain rfl : held = 0 := hs.ground rfl
    exact stepGround_uncomment c rest
  cases hcomment : mode.region.isComment with
  | true =>
    -- inside of a comment the other scanner is outside and passes blanks
    have hquiet : ∀ n, State.quiet ⟨mode, n⟩ = .ground := fun n => by rw [State.quiet, if_pos hcomment]
    have hregion : mode.region.quiet = .code := by rw [Region.quiet, if_pos hcomment]
    have hkept : kept mode.region c = blankOut c := by rw [kept, if_pos hcomment]
    rw [hquiet]
    cases held with
    | succ held =>
      have hstep : ∀ x r, step ⟨mode, held + 1⟩ x r = (mode.region, ⟨mode, held⟩) := fun _ _ => rfl
      rw [hstep, hkept, hregion, hquiet]
      exact step_ground_blankOut c _
    | zero =>
      rw [step_inside hground]
      split
      · next hend =>
        have hc : Text.isTerminator c = true := (Bool.and_eq_true_iff.mp hend).2
        exact stepGround_of_not_isVisible (by simp [isVisible, kept, Region.isComment, hc]) _
      · simp only [hkept, hregion, quiet_stepInside, hcomment, if_true]
        exact step_ground_blankOut c _
  | false =>
    -- inside of a literal both scanners are in the same state
    have hquiet : ∀ n, State.quiet ⟨mode, n⟩ = ⟨mode, n⟩ := fun n => by
      simp only [State.quiet, hcomment, Bool.false_eq_true, if_false]
    have hregion : mode.region.quiet = mode.region := by
      simp only [Region.quiet, hcomment, Bool.false_eq_true, if_false]
    have hkept : kept mode.region c = c := by
      simp only [kept, hcomment, Bool.false_eq_true, if_false]
    rw [hquiet]
    cases held with
    | succ held => simp only [step, hregion, hquiet]
    | zero =>
      have hstep := step_inside hground c
      by_cases hend : (mode.endsWithLine && Text.isTerminator c) = true
      · simp only [if_pos hend] at hstep
        simp only [hstep, kept, Region.isComment, Bool.false_eq_true, if_false]
        rfl
      · simp only [if_neg hend] at hstep
        simp only [hstep, hkept, hregion, stepInside_uncommentFrom hcomment, quiet_stepInside, hcomment,
          Bool.false_eq_true, if_false]

/-- Masking blanks what uncommenting has blanked. -/
theorem shown_kept (region : Region) (c : Char) :
    shown region.quiet (kept region c) = shown region c := by
  cases region with
  | code => rfl
  | token kind first => cases kind <;> rfl

theorem maskFrom_uncommentFrom {s : State} {t : Text} (hs : Anchored s t) :
    maskFrom s.quiet (uncommentFrom s t) = maskFrom s t := by
  induction t generalizing s with
  | nil => rfl
  | cons c rest ih =>
    rw [uncommentFrom_cons, maskFrom_cons, step_uncomment hs, ih hs.step, shown_kept, ← maskFrom_cons]

/-- **A script and its uncommented twin have one mask.** -/
theorem mask_uncomment (t : Text) : mask (uncomment t) = mask t := by
  rw [uncomment_eq_uncommentFrom, mask_eq_maskFrom, mask_eq_maskFrom]
  exact maskFrom_uncommentFrom (anchored_ground t)

/-! ## Offset by offset -/

/-- The offset lies in a comment. -/
def InComment (code : Text) (offset : Nat) : Prop :=
  (regions code)[offset]?.any Region.isComment = true

instance (code : Text) (offset : Nat) : Decidable (InComment code offset) :=
  inferInstanceAs (Decidable (_ = _))

theorem InComment.lt_length {code : Text} {offset : Nat} (h : InComment code offset) :
    offset < code.length := by
  rw [← length_regions]
  by_contra hge
  rw [InComment, List.getElem?_eq_none (Nat.le_of_not_lt hge)] at h
  cases h

theorem length_uncomment (t : Text) : (uncomment t).length = t.length :=
  length_blankWhere _ t

/-- **Uncommenting, offset by offset:** a character is blanked where it lies in a comment. -/
theorem getElem?_uncomment (code : Text) (i : Nat) :
    (uncomment code)[i]? = if InComment code i then code[i]?.map blankOut else code[i]? := by
  have hzip : (uncomment code)[i]?
      = (List.zipWith (fun c region => kept region c) code (regions code))[i]? := rfl
  rw [hzip, List.getElem?_zipWith]
  cases hregion : (regions code)[i]? with
  | none =>
    have hend : code[i]? = none := by
      rw [List.getElem?_eq_none_iff, ← length_regions]
      exact List.getElem?_eq_none_iff.mp hregion
    simp only [hend, Option.map_none, ite_self]
  | some region =>
    by_cases hin : InComment code i
    · have hcomment : region.isComment = true := by simpa [InComment, hregion] using hin
      rw [if_pos hin]
      cases code[i]? with
      | none => rfl
      | some c => simp [kept, hcomment]
    · have hcomment : region.isComment = false := by simpa [InComment, hregion] using hin
      rw [if_neg hin]
      cases code[i]? with
      | none => rfl
      | some c => simp [kept, hcomment]

theorem getElem?_uncomment_of_not_inComment {code : Text} {i : Nat} (h : ¬ InComment code i) :
    (uncomment code)[i]? = code[i]? := by
  rw [getElem?_uncomment, if_neg h]

/-- What is visible without the comments is the script's own and lies in no comment. -/
theorem not_inComment_of_isVisible {code : Text} {i : Nat} {x : Char}
    (h : (uncomment code)[i]? = some x) (hx : isVisible x = true) :
    ¬ InComment code i ∧ code[i]? = some x := by
  by_cases hin : InComment code i
  · rw [getElem?_uncomment, if_pos hin] at h
    obtain ⟨c, -, rfl⟩ := Option.map_eq_some_iff.mp h
    rw [isVisible_blankOut] at hx
    cases hx
  · exact ⟨hin, by rw [← h, getElem?_uncomment_of_not_inComment hin]⟩

/-! ## Where a comment is entered -/

/-- Behind a character outside of comments the scanner is in no comment. -/
theorem isComment_step {s : State} {c : Char} {rest : Text}
    (h : (step s c rest).1.isComment = false) :
    (step s c rest).2.mode.region.isComment = false := by
  obtain ⟨mode, held⟩ := s
  cases held with
  | succ held => exact h
  | zero =>
    by_cases hground : mode = .ground
    · subst hground
      revert h
      show (stepGround c rest).1.isComment = false → (stepGround c rest).2.mode.region.isComment = false
      fun_cases stepGround c rest <;> simp [Region.isComment, Mode.region, State.ground]
    · rw [step_inside hground] at h ⊢
      split
      · rfl
      · next hend =>
        rw [if_neg hend] at h
        have hquiet := quiet_stepInside mode c rest
        rw [h, if_neg Bool.false_ne_true] at hquiet
        by_contra hcomment
        rw [State.quiet, if_pos (by simpa using hcomment)] at hquiet
        rw [← hquiet] at hcomment
        exact hcomment rfl

/-- The scanner enters a comment at a slash. -/
theorem eq_slash_of_step {s : State} (hs : s.mode.region.isComment = false) {c : Char} {rest : Text}
    (h : (step s c rest).1.isComment = true) : c = '/' := by
  obtain ⟨mode, held⟩ := s
  cases held with
  | succ held => exact absurd (hs.symm.trans h) Bool.false_ne_true
  | zero =>
    by_cases hground : mode = .ground
    · subst hground
      revert h
      show (stepGround c rest).1.isComment = true → c = '/'
      fun_cases stepGround c rest <;> simp [Region.isComment]
    · rw [step_inside hground] at h
      split at h
      · cases h
      · exact absurd (hs.symm.trans h) Bool.false_ne_true

theorem exists_slash_of_state {s : State} (hs : s.mode.region.isComment = false) {t : Text} {j : Nat}
    (hj : (regionsFrom s t)[j]?.any Region.isComment = true) :
    ∃ k ≤ j, (regionsFrom s t)[k]?.any Region.isComment = true ∧ t[k]? = some '/' := by
  induction t generalizing s j with
  | nil => cases hj
  | cons c rest ih =>
    cases hfirst : (step s c rest).1.isComment with
    | true =>
      refine ⟨0, Nat.zero_le j, hfirst, ?_⟩
      rw [eq_slash_of_step hs hfirst]
      rfl
    | false =>
      cases j with
      | zero => exact absurd (hfirst.symm.trans hj) Bool.false_ne_true
      | succ j =>
        obtain ⟨k, hk, hcomment, hslash⟩ := ih (isComment_step hfirst) hj
        exact ⟨k + 1, Nat.succ_le_succ hk, hcomment, hslash⟩

theorem exists_slash_of_regionsFrom {s : State} {t : Text} {i j : Nat}
    (hi : ¬ (regionsFrom s t)[i]?.any Region.isComment = true)
    (hj : (regionsFrom s t)[j]?.any Region.isComment = true) (hij : i ≤ j) :
    ∃ k, i < k ∧ k ≤ j ∧ (regionsFrom s t)[k]?.any Region.isComment = true ∧ t[k]? = some '/' := by
  induction t generalizing s i j with
  | nil => cases hj
  | cons c rest ih =>
    cases j with
    | zero => exact absurd (Nat.le_zero.mp hij ▸ hj) hi
    | succ j =>
      cases i with
      | zero =>
        have hfirst : (step s c rest).1.isComment = false := Bool.eq_false_iff.mpr hi
        obtain ⟨k, hk, hcomment, hslash⟩ := exists_slash_of_state (isComment_step hfirst) hj
        exact ⟨k + 1, Nat.succ_pos k, Nat.succ_le_succ hk, hcomment, hslash⟩
      | succ i =>
        obtain ⟨k, hik, hkj, hcomment, hslash⟩ := ih hi hj (Nat.le_of_succ_le_succ hij)
        exact ⟨k + 1, Nat.succ_lt_succ hik, Nat.succ_le_succ hkj, hcomment, hslash⟩

/-- **A comment is entered at a slash:** between a character outside of comments and one in a comment
there is a slash in a comment. -/
theorem exists_slash_of_inComment {code : Text} {i j : Nat} (hi : ¬ InComment code i)
    (hj : InComment code j) (hij : i ≤ j) :
    ∃ k, i < k ∧ k ≤ j ∧ InComment code k ∧ code[k]? = some '/' :=
  exists_slash_of_regionsFrom hi hj hij

/-! ## Both twins of a source -/

/-- What is visible in the mask lies in no comment. -/
theorem not_inComment_of_mask {code : Text} {i : Nat} {x : Char} (h : (mask code)[i]? = some x)
    (hx : isVisible x = true) : ¬ InComment code i ∧ code[i]? = some x := by
  rw [← mask_uncomment] at h
  rcases getElem?_mask (uncomment code) i with heq | heq
  · exact not_inComment_of_isVisible (heq.symm.trans h) hx
  · obtain rfl : ' ' = x := Option.some.inj (heq.symm.trans h)
    cases hx

/-- **Lines are kept:** an offset lies on the same line with and without the comments. -/
theorem lineOf_uncomment (code : Text) (offset : Nat) :
    Text.lineOf (uncomment code) offset = Text.lineOf code offset := by
  rw [← lineOf_mask (uncomment code), mask_uncomment, lineOf_mask]

/-- The mask of a script is that of its uncommented twin. -/
theorem masked_uncomment (code : Text) :
    (Source.ofCode (uncomment code)).masked = (Source.ofCode code).masked :=
  mask_uncomment code

/-- Outside of comments the same offsets are blanked with and without the comments. -/
theorem isBlanked_uncomment {code : Text} {offset : Nat} (h : ¬ InComment code offset) :
    (Source.ofCode (uncomment code)).isBlanked offset = (Source.ofCode code).isBlanked offset := by
  simp only [Source.isBlanked, Source.ofCode, mask_uncomment, getElem?_uncomment_of_not_inComment h]

/-- A visible character in a comment is blanked. -/
theorem isBlanked_of_inComment {code : Text} {offset : Nat} (h : InComment code offset) {x : Char}
    (hcode : code[offset]? = some x) (hx : isVisible x = true) :
    (Source.ofCode code).isBlanked offset = true := by
  simp only [Source.isBlanked, Source.ofCode, bne_iff_ne, hcode]
  intro heq
  exact (not_inComment_of_mask heq hx).1 h

end ChartLint.Lexing
