import ChartLint.Source.Basic
import ChartLint.Text.Blank
import Mathlib.Data.List.Basic

/-!
# The layout of masked text

Masking changes characters and moves none (`mask_layout`): the line terminators of a text and of its
mask stand at the same offsets (`lineOf_mask`), and what is visible in the mask is the script's own
character, read outside of comments and literals (`visible_step`).

Masked text is inert. No quote is visible in it and no two visible characters open a comment, so
the scanner finds nothing to mask in it (`mask_mask`).
-/

namespace ChartLint.Lexing

/-! ## Masking from a state -/

/-- What masking shows of a character. -/
def shown (region : Region) (c : Char) : Char :=
  if region != .code then blankOut c else c

/-- The mask of a text that the scanner reads on from a state. -/
def maskFrom (s : State) (t : Text) : Text :=
  List.zipWith (fun c region => shown region c) t (regionsFrom s t)

theorem mask_eq_maskFrom (t : Text) : mask t = maskFrom .ground t :=
  rfl

@[simp]
theorem maskFrom_nil (s : State) : maskFrom s [] = [] :=
  rfl

theorem maskFrom_cons (s : State) (c : Char) (rest : Text) :
    maskFrom s (c :: rest) = shown (step s c rest).1 c :: maskFrom (step s c rest).2 rest :=
  rfl

@[simp]
theorem length_maskFrom (s : State) (t : Text) : (maskFrom s t).length = t.length := by
  simp [maskFrom, length_regionsFrom]

/-- A character that masking may show in place of `c`: the character itself, or its blank. -/
theorem shown_eq (region : Region) (c : Char) : shown region c = c ∨ shown region c = blankOut c := by
  unfold shown
  split
  · exact .inr rfl
  · exact .inl rfl

theorem blankOut_of_isTerminator {c : Char} (h : Text.isTerminator c = true) : blankOut c = c := by
  simp [blankOut, h]

theorem blankOut_of_not_isTerminator {c : Char} (h : Text.isTerminator c = false) :
    blankOut c = ' ' := by
  simp [blankOut, h]

/-- Blanking neither makes nor removes a line terminator. -/
theorem isTerminator_blankOut (c : Char) : Text.isTerminator (blankOut c) = Text.isTerminator c := by
  cases h : Text.isTerminator c with
  | true => rw [blankOut_of_isTerminator h, h]
  | false => rw [blankOut_of_not_isTerminator h]; rfl

theorem blankOut_eq_space_or (c : Char) :
    blankOut c = ' ' ∨ (Text.isTerminator c = true ∧ blankOut c = c) := by
  cases h : Text.isTerminator c with
  | true => exact .inr ⟨rfl, blankOut_of_isTerminator h⟩
  | false => exact .inl (blankOut_of_not_isTerminator h)

theorem isBlank_blankOut (c : Char) : Text.isBlank (blankOut c) = true := by
  rcases blankOut_eq_space_or c with h | ⟨hc, h⟩
  · rw [h]
    decide
  · rw [h]
    exact Text.isBlank_of_isTerminator hc

/-- Blanking brings nothing into a text but spaces. -/
theorem not_mem_map_blankOut {c : Char} {t : Text} (hspace : c ≠ ' ') (h : c ∉ t) :
    c ∉ t.map blankOut := by
  intro hmem
  obtain ⟨d, hd, rfl⟩ := List.mem_map.mp hmem
  rcases blankOut_eq_space_or d with heq | ⟨-, heq⟩
  · exact hspace heq
  · rw [heq] at h
    exact h hd

/-- A line terminator is shown where it stands and nowhere else. -/
theorem shown_eq_iff_of_isTerminator {region : Region} {c x : Char}
    (hx : Text.isTerminator x = true) : shown region c = x ↔ c = x := by
  rcases shown_eq region c with h | h
  · rw [h]
  · rw [h]
    constructor
    · intro hb
      have hc : Text.isTerminator c = true := by rw [← isTerminator_blankOut, hb, hx]
      rw [← hb, blankOut_of_isTerminator hc]
    · rintro rfl
      exact blankOut_of_isTerminator hx

/-! ## Lines -/

/-- The line feeds in front of an offset are those of the script. -/
theorem count_take_maskFrom (s : State) (t : Text) (offset : Nat) :
    ((maskFrom s t).take offset).count '\n' = (t.take offset).count '\n' := by
  induction t generalizing s offset with
  | nil => rfl
  | cons c rest ih =>
    cases offset with
    | zero => rfl
    | succ offset =>
      have hc : shown (step s c rest).1 c = '\n' ↔ c = '\n' := shown_eq_iff_of_isTerminator rfl
      simp only [maskFrom_cons, List.take_succ_cons, List.count_cons, ih, beq_iff_eq, hc]

/-- **Lines are kept:** an offset lies on the same line of a script and of its mask. -/
theorem lineOf_mask (t : Text) (offset : Nat) :
    Text.lineOf (mask t) offset = Text.lineOf t offset := by
  simp only [Text.lineOf, mask_eq_maskFrom, count_take_maskFrom]

/-! ## Offset by offset, line by line -/

/-- Every character is shown as its region has it. -/
theorem getElem?_maskFrom (s : State) (t : Text) (i : Nat) :
    ∃ region, (maskFrom s t)[i]? = t[i]?.map (shown region) := by
  induction t generalizing s i with
  | nil => exact ⟨.code, rfl⟩
  | cons c rest ih =>
    cases i with
    | zero => exact ⟨(step s c rest).1, rfl⟩
    | succ i => exact ih (step s c rest).2 i

/-- A character is shown, or there is a space in its place. -/
theorem getElem?_mask (t : Text) (i : Nat) : (mask t)[i]? = t[i]? ∨ (mask t)[i]? = some ' ' := by
  obtain ⟨region, hregion⟩ := getElem?_maskFrom .ground t i
  rw [mask_eq_maskFrom, hregion]
  cases hc : t[i]? with
  | none => exact .inl rfl
  | some c =>
    rw [Option.map_some, Option.some.injEq, Option.some.injEq]
    rcases shown_eq region c with hshown | hshown
    · exact .inl hshown
    · rw [hshown]
      unfold blankOut
      split
      · exact .inl rfl
      · exact .inr rfl

/-- A line terminator stands in the mask where it stands in the text. -/
theorem getElem?_mask_terminator {x : Char} (hx : Text.isTerminator x = true) (t : Text) (i : Nat) :
    (mask t)[i]? = some x ↔ t[i]? = some x := by
  obtain ⟨region, hregion⟩ := getElem?_maskFrom .ground t i
  rw [mask_eq_maskFrom, hregion]
  cases t[i]? with
  | none => exact Iff.rfl
  | some c => simp only [Option.map_some, Option.some.injEq, shown_eq_iff_of_isTerminator hx]

theorem map_length_lines_maskFrom (s : State) (t : Text) :
    (Text.lines (maskFrom s t)).map List.length = (Text.lines t).map List.length := by
  induction t generalizing s with
  | nil => rfl
  | cons c rest ih =>
    have hfeed : shown (step s c rest).1 c = '\n' ↔ c = '\n' := shown_eq_iff_of_isTerminator rfl
    have hrest := ih (step s c rest).2
    simp only [Text.lines] at hrest ⊢
    rw [maskFrom_cons, Text.split, Text.split]
    simp only [hfeed]
    split
    · rw [List.map_cons, List.map_cons, hrest]
    · obtain ⟨piece, pieces, hmasked⟩ :=
        List.exists_cons_of_ne_nil (Text.split_ne_nil '\n' (maskFrom (step s c rest).2 rest))
      obtain ⟨piece', pieces', hplain⟩ := List.exists_cons_of_ne_nil (Text.split_ne_nil '\n' rest)
      rw [hmasked, hplain, List.map_cons, List.map_cons, List.cons.injEq] at hrest
      rw [hmasked, hplain]
      simp only [List.map_cons, List.length_cons, hrest]

/-- **The mask keeps the layout.** It is as long as the script and shows at every offset the script's
character or a space; line feeds and carriage returns stand where they stand in the script; so the
lines of the two twins are as many, and line by line as long. -/
theorem mask_layout (code : Text) :
    (mask code).length = code.length
      ∧ (∀ i : Nat, (mask code)[i]? = code[i]? ∨ (mask code)[i]? = some ' ')
      ∧ (∀ i : Nat, (mask code)[i]? = some '\n' ↔ code[i]? = some '\n')
      ∧ (∀ i : Nat, (mask code)[i]? = some '\r' ↔ code[i]? = some '\r')
      ∧ (Text.lines (Source.ofCode code).masked).length = (Text.lines (Source.ofCode code).code).length
      ∧ (Text.lines (Source.ofCode code).masked).map List.length
        = (Text.lines (Source.ofCode code).code).map List.length := by
  have hlines := map_length_lines_maskFrom .ground code
  refine ⟨length_mask code, getElem?_mask code, getElem?_mask_terminator rfl code,
    getElem?_mask_terminator rfl code, ?_, hlines⟩
  have hcount := congrArg List.length hlines
  rwa [List.length_map, List.length_map] at hcount

/-! ## The states of a run -/

/-- **The invariant of the scanner.** Nothing is held outside of comments and literals, no held
character is a line terminator, and a block comment that is about to end has its slash ahead. -/
structure Anchored (s : State) (rest : Text) : Prop where
  ground : s.mode = .ground → s.held = 0
  held : ∀ c ∈ rest.take s.held, Text.isTerminator c = false
  blockEnd : s.mode = .blockEnd → s.held = 0 ∧ rest.head? = some '/'

theorem anchored_ground (t : Text) : Anchored .ground t where
  ground _ := rfl
  held := by simp [State.ground]
  blockEnd h := by cases h

/-- A state in which nothing is held, other than the one in front of the end of a block comment. -/
theorem anchored_of_held_zero {s : State} (hheld : s.held = 0) (hmode : s.mode ≠ .blockEnd)
    (t : Text) : Anchored s t where
  ground _ := hheld
  held := by simp [hheld]
  blockEnd h := absurd h hmode

theorem anchored_stepGround (c : Char) (rest : Text) : Anchored (stepGround c rest).2 rest := by
  unfold stepGround
  split <;> first
    | exact anchored_ground _
    | exact ⟨by simp, by simp [Text.isTerminator], by simp⟩

theorem anchored_stepInside (mode : Mode) (c : Char) (rest : Text) :
    Anchored (stepInside mode c rest) rest := by
  cases mode with
  | ground | blockEnd => exact anchored_ground rest
  | lineComment => exact anchored_of_held_zero rfl (by simp [stepInside]) rest
  | blockComment =>
    simp only [stepInside]
    split
    · next h => exact ⟨by simp, by simp, fun _ => ⟨rfl, by simpa using (by simpa using h : _ ∧ _).2⟩⟩
    · exact anchored_of_held_zero rfl (by simp) rest
  | verbatim =>
    simp only [stepInside]
    split
    · exact anchored_of_held_zero rfl (by simp) rest
    · split
      · next h =>
        obtain ⟨tail, rfl⟩ := List.head?_eq_some_iff.mp (by simpa using h : rest.head? = some '"')
        exact ⟨by simp, by simp [Text.isTerminator], by simp⟩
      · exact anchored_ground rest
  | quoted quote =>
    simp only [stepInside]
    split
    · cases rest with
      | nil => exact anchored_of_held_zero rfl (by simp) []
      | cons d tail =>
        -- a backslash holds the next character back, unless the line ends there
        cases hd : Text.isTerminator d <;> exact ⟨by simp, by simp [guards, hd], by simp⟩
    · split
      · exact anchored_ground rest
      · exact anchored_of_held_zero rfl (by simp) rest

/-- A step inside of a comment or literal when nothing is held. -/
theorem step_inside {mode : Mode} (h : mode ≠ .ground) (c : Char) (rest : Text) :
    step ⟨mode, 0⟩ c rest = if mode.endsWithLine && Text.isTerminator c then (.code, .ground)
      else (mode.region, stepInside mode c rest) := by
  cases mode with
  | ground => exact absurd rfl h
  | _ => rfl

/-- **A step keeps the invariant.** -/
theorem Anchored.step {s : State} {c : Char} {rest : Text} (h : Anchored s (c :: rest)) :
    Anchored (Lexing.step s c rest).2 rest := by
  obtain ⟨mode, held⟩ := s
  cases held with
  | succ held =>
    refine ⟨fun hmode => absurd (h.ground hmode) (by simp), fun x hx => ?_, fun hmode => ?_⟩
    · exact h.held x (by simpa using .inr hx)
    · exact absurd (h.blockEnd hmode).1 (by simp)
  | zero =>
    by_cases hmode : mode = .ground
    · subst hmode
      exact anchored_stepGround c rest
    · rw [step_inside hmode]
      split
      · exact anchored_ground rest
      · exact anchored_stepInside mode c rest

/-! ## What is visible -/

/-- A character that is neither a space nor a line terminator, so that a blank cannot stand for
it. -/
def isVisible (c : Char) : Bool :=
  !(c == ' ' || Text.isTerminator c)

theorem isVisible_blankOut (c : Char) : isVisible (blankOut c) = false := by
  cases h : Text.isTerminator c with
  | true => simp [isVisible, isTerminator_blankOut, h]
  | false => simp [isVisible, blankOut_of_not_isTerminator h]

/-- A step outside of comments and literals opens a token or reads code and stays outside. -/
theorem stepGround_code {c : Char} {rest : Text} (h : (stepGround c rest).1 = .code) :
    stepGround c rest = (.code, .ground) := by
  unfold stepGround at h ⊢
  split <;> simp_all

/-- A step that reads code leads outside. It begins there as well, unless it reads the line terminator
that ends a token. -/
theorem Anchored.step_code {s : State} {c : Char} {rest : Text} (hs : Anchored s (c :: rest))
    (h : (Lexing.step s c rest).1 = .code) :
    (Lexing.step s c rest).2 = .ground ∧ (Text.isTerminator c = false → s = .ground) := by
  obtain ⟨mode, held⟩ := s
  cases held with
  | succ held =>
    -- what is held belongs to a token
    have hmode : mode ≠ .ground := fun hm => absurd (hs.ground hm) (by simp)
    cases mode <;> simp_all [Lexing.step, Mode.region]
  | zero =>
    by_cases hmode : mode = .ground
    · subst hmode
      exact ⟨congrArg Prod.snd (stepGround_code h), fun _ => rfl⟩
    · rw [step_inside hmode] at h ⊢
      by_cases hends : (mode.endsWithLine && Text.isTerminator c) = true
      · rw [if_pos hends]
        exact ⟨rfl, fun hc => by simp [hc] at hends⟩
      · rw [if_neg hends] at h
        cases mode <;> first | exact absurd rfl hmode | cases h

/-- **What is visible is code:** the scanner reads a visible character outside of comments and
literals and stays there. -/
theorem visible_step {s : State} {c : Char} {rest : Text} (hs : Anchored s (c :: rest))
    (h : isVisible (shown (step s c rest).1 c) = true) :
    s = .ground ∧ stepGround c rest = (.code, .ground) := by
  have hcode : (step s c rest).1 = .code := by
    by_contra hne
    rw [shown, if_pos (by simpa using hne), isVisible_blankOut] at h
    exact Bool.false_ne_true h
  have hc : Text.isTerminator c = false := by
    rw [shown, hcode] at h
    simp only [bne_self_eq_false, Bool.false_eq_true, if_false, isVisible, Bool.not_eq_true',
      Bool.or_eq_false_iff] at h
    exact h.2
  obtain rfl : s = .ground := (hs.step_code hcode).2 hc
  exact ⟨rfl, stepGround_code hcode⟩

theorem shown_of_code {c : Char} {rest : Text} (h : stepGround c rest = (.code, .ground)) :
    shown (step .ground c rest).1 c = c := by
  have hstep : step .ground c rest = stepGround c rest := rfl
  rw [hstep, h]
  rfl

/-! ## Masked text is inert -/

/-- No quote is visible in masked text. -/
theorem ne_quote_of_mem_maskFrom {s : State} {t : Text} (hs : Anchored s t) {x : Char}
    (hx : x ∈ maskFrom s t) : x ≠ '"' ∧ x ≠ '\'' := by
  induction t generalizing s with
  | nil => cases hx
  | cons c rest ih =>
    rw [maskFrom_cons, List.mem_cons] at hx
    rcases hx with rfl | hx
    · cases hv : isVisible (shown (step s c rest).1 c) with
      | false => constructor <;> intro heq <;> rw [heq] at hv <;> cases hv
      | true =>
        obtain ⟨rfl, hcode⟩ := visible_step hs hv
        rw [shown_of_code hcode]
        constructor <;> rintro rfl <;> cases hcode
    · exact ih hs.step hx

/-- The first character of a masked text is that of the script, or it is not visible. -/
theorem head?_maskFrom {s : State} {t : Text} {x : Char} (hx : isVisible x = true)
    (h : (maskFrom s t).head? = some x) : t.head? = some x := by
  cases t with
  | nil => cases h
  | cons c rest =>
    rw [maskFrom_cons, List.head?_cons, Option.some.injEq] at h
    rcases shown_eq (step s c rest).1 c with heq | heq
    · rw [List.head?_cons, ← heq, h]
    · rw [← h, heq, isVisible_blankOut] at hx
      cases hx

/-- A character that opens nothing in a script opens nothing in its mask. -/
theorem stepGround_maskFrom {s : State} {c : Char} {rest : Text} (hs : Anchored s rest)
    (h : stepGround c rest = (.code, .ground)) :
    stepGround c (maskFrom s rest) = (.code, .ground) := by
  have hquote : ∀ x ∈ maskFrom s rest, x ≠ '"' := fun x hx => (ne_quote_of_mem_maskFrom hs hx).1
  by_cases hslash : c = '/'
  · subst hslash
    have hhead : ∀ x, x = '/' ∨ x = '*' → (maskFrom s rest).head? ≠ some x := by
      intro x hx heq
      have hrest := head?_maskFrom (by rcases hx with rfl | rfl <;> rfl) heq
      obtain ⟨tail, rfl⟩ := List.head?_eq_some_iff.mp hrest
      rcases hx with rfl | rfl <;> cases h
    unfold stepGround
    split <;> simp_all
  · -- every other opener needs a quote
    have hc : c ≠ '"' ∧ c ≠ '\'' := by constructor <;> rintro rfl <;> cases h
    unfold stepGround
    split <;> simp_all

/-- A blank opens nothing. -/
theorem stepGround_of_not_isVisible {c : Char} (h : isVisible c = false) (rest : Text) :
    stepGround c rest = (.code, .ground) := by
  have hc : c = ' ' ∨ c = '\n' ∨ c = '\r' := by
    simpa only [isVisible, Text.isTerminator, Bool.not_eq_false', Bool.or_eq_true, beq_iff_eq]
      using h
  rcases hc with rfl | rfl | rfl <;> rfl

/-- **What a step leaves in the mask** opens nothing in front of what later steps leave there. -/
theorem stepGround_shown {s : State} {c : Char} {rest : Text} (hs : Anchored s (c :: rest)) :
    stepGround (shown (step s c rest).1 c) (maskFrom (step s c rest).2 rest) = (.code, .ground) := by
  cases hv : isVisible (shown (step s c rest).1 c) with
  | false => exact stepGround_of_not_isVisible hv _
  | true =>
    obtain ⟨rfl, hground⟩ := visible_step hs hv
    rw [shown_of_code hground]
    exact stepGround_maskFrom hs.step hground

theorem mask_maskFrom {s : State} {t : Text} (hs : Anchored s t) :
    maskFrom .ground (maskFrom s t) = maskFrom s t := by
  induction t generalizing s with
  | nil => rfl
  | cons c rest ih =>
    have hcode := stepGround_shown hs
    have hnext : (step .ground (shown (step s c rest).1 c) (maskFrom (step s c rest).2 rest)).2
        = .ground := by
      rw [show step .ground _ _ = stepGround _ _ from rfl, hcode]
    rw [maskFrom_cons, maskFrom_cons, shown_of_code hcode, hnext, ih hs.step]

/-- **Masking is idempotent.** -/
theorem mask_mask (t : Text) : mask (mask t) = mask t :=
  mask_maskFrom (anchored_ground t)

end ChartLint.Lexing
