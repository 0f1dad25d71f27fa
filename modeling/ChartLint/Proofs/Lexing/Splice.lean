import ChartLint.Proofs.Lexing.Layout

/-!
# Splices and the mask

The scanner looks at most two characters ahead, so a change to a script reaches back at most two
characters. Here it is shown when it reaches back not at all: behind a *settled* character
(`stateAfter_settled`), and in front of a *neutral* one (`alike_of_isNeutral`).

From this follow the laws that the rewriting passes live by. Text that opens nothing, put in place
of visible code or between lines, stands in the mask as it stands in the script and leaves the rest
of the mask alone (`mask_splice`, `mask_insertAt`); between the lines of a comment or of a verbatim
literal it is blanked and leaves the rest of the mask alone (`mask_insertAt_inside`).
-/

namespace ChartLint.Lexing

/-! ## Reading a part of a text -/

/-- The state behind `a` when `b` follows it. -/
def stateAfter : State → Text → Text → State
  | s, [], _ => s
  | s, c :: a, b => stateAfter (step s c (a ++ b)).2 a b

/-- The mask of `a` when `b` follows it. -/
def maskIn : State → Text → Text → Text
  | _, [], _ => []
  | s, c :: a, b => shown (step s c (a ++ b)).1 c :: maskIn (step s c (a ++ b)).2 a b

@[simp]
theorem length_maskIn (s : State) (a b : Text) : (maskIn s a b).length = a.length := by
  induction a generalizing s with
  | nil => rfl
  | cons c a ih => simp [maskIn, ih]

/-- The mask of a text is the mask of its front and, from the state behind it, of its rest. -/
theorem maskFrom_append (s : State) (a b : Text) :
    maskFrom s (a ++ b) = maskIn s a b ++ maskFrom (stateAfter s a b) b := by
  induction a generalizing s with
  | nil => rfl
  | cons c a ih => simp only [List.cons_append, maskFrom_cons, maskIn, stateAfter, ih]

theorem stateAfter_append (s : State) (a a' b : Text) :
    stateAfter s (a ++ a') b = stateAfter (stateAfter s a (a' ++ b)) a' b := by
  induction a generalizing s with
  | nil => rfl
  | cons c a ih => simp only [List.cons_append, stateAfter, ih, List.append_assoc]

theorem maskIn_append (s : State) (a a' b : Text) :
    maskIn s (a ++ a') b = maskIn s a (a' ++ b) ++ maskIn (stateAfter s a (a' ++ b)) a' b := by
  induction a generalizing s with
  | nil => rfl
  | cons c a ih => simp only [List.cons_append, maskIn, stateAfter, ih, List.append_assoc]

/-- The invariant of the scanner holds along a run. -/
theorem Anchored.stateAfter {s : State} {a b : Text} (h : Anchored s (a ++ b)) :
    Anchored (Lexing.stateAfter s a b) b := by
  induction a generalizing s with
  | nil => exact h
  | cons c a ih => exact ih h.step

/-! ## How far the scanner looks ahead -/

/-- Outside of comments and literals the scanner looks two characters ahead. -/
theorem stepGround_take_two (c : Char) (rest : Text) :
    stepGround c rest = stepGround c (rest.take 2) := by
  match rest with
  | [] => rfl
  | [_] => rfl
  | x :: y :: r =>
    unfold stepGround
    rw [List.take_succ_cons, List.take_succ_cons, List.take_zero]
    split
    case h_9 hs1 hs2 hs3 hs4 hs5 hs6 hs7 hs8 => split <;> simp_all
    all_goals simp_all

/-- Inside it looks one character ahead. -/
theorem stepInside_take_one (mode : Mode) (c : Char) (rest : Text) :
    stepInside mode c rest = stepInside mode c (rest.take 1) := by
  cases rest with
  | nil => rfl
  | cons x r => cases mode <;> rfl

/-- A step is settled by what is held, or by a step outside and a step inside. -/
theorem step_congr {s : State} {c : Char} {rest rest' : Text}
    (hground : stepGround c rest = stepGround c rest')
    (hinside : ∀ mode, stepInside mode c rest = stepInside mode c rest') :
    step s c rest = step s c rest' := by
  obtain ⟨mode, held⟩ := s
  cases held with
  | succ held => rfl
  | zero =>
    by_cases hmode : mode = .ground
    · subst hmode
      exact hground
    · rw [step_inside hmode, step_inside hmode, hinside mode]

/-- Two texts that the scanner cannot tell apart from in front of them. -/
def Alike (b b' : Text) : Prop :=
  ∀ s c, step s c b = step s c b' ∧ ∀ d, step s c (d :: b) = step s c (d :: b')

/-- The step over a character that has two more characters of `a` behind it is the same whatever
follows `a`. -/
theorem step_append_of_alike {b b' : Text} (h : Alike b b') (s : State) (c : Char) (a : Text) :
    step s c (a ++ b) = step s c (a ++ b') := by
  match a with
  | [] => exact (h s c).1
  | [d] => exact (h s c).2 d
  | x :: y :: r =>
    apply step_congr
    · rw [stepGround_take_two, stepGround_take_two c (x :: y :: r ++ b')]
      rfl
    · intro mode
      rw [stepInside_take_one, stepInside_take_one mode c (x :: y :: r ++ b')]
      rfl

/-- **A front is read alike in front of texts that are alike.** -/
theorem stateAfter_of_alike {b b' : Text} (h : Alike b b') (s : State) (a : Text) :
    stateAfter s a b = stateAfter s a b' ∧ maskIn s a b = maskIn s a b' := by
  induction a generalizing s with
  | nil => exact ⟨rfl, rfl⟩
  | cons c a ih =>
    have hstep := step_append_of_alike h s c a
    simp only [stateAfter, maskIn, hstep]
    exact ⟨(ih _).1, by rw [(ih _).2]⟩

/-- A character that takes part in no opener or closer as a character ahead. -/
def isNeutral (c : Char) : Bool :=
  !(c == '/' || c == '*' || c == '"' || c == '@' || c == '$' || Text.isTerminator c)

theorem stepGround_of_isNeutral {x : Char} (hx : isNeutral x = true) (c : Char) (r : Text) :
    stepGround c (x :: r) = stepGround c [] := by
  simp only [isNeutral, Bool.not_eq_true', Bool.or_eq_false_iff, beq_eq_false_iff_ne] at hx
  unfold stepGround
  split <;> simp_all

theorem stepGround_second {x : Char} (hx : x ≠ '"') (c d : Char) (r : Text) :
    stepGround c (d :: x :: r) = stepGround c [d] := by
  unfold stepGround
  split <;> simp_all

theorem stepInside_of_isNeutral {x y : Char} (hx : isNeutral x = true) (hy : isNeutral y = true)
    (mode : Mode) (c : Char) (r r' : Text) :
    stepInside mode c (x :: r) = stepInside mode c (y :: r') := by
  simp only [isNeutral, Bool.not_eq_true', Bool.or_eq_false_iff, beq_eq_false_iff_ne] at hx hy
  cases mode <;> simp [stepInside, guards, hx, hy]

/-- Texts that start with a neutral character are alike. -/
theorem alike_of_isNeutral {x y : Char} (hx : isNeutral x = true) (hy : isNeutral y = true)
    (r r' : Text) : Alike (x :: r) (y :: r') := by
  have hquote : ∀ {z : Char}, isNeutral z = true → z ≠ '"' := by
    rintro z hz rfl
    cases hz
  intro s c
  refine ⟨step_congr ?_ (fun mode => stepInside_of_isNeutral hx hy mode c r r'), fun d => ?_⟩
  · rw [stepGround_of_isNeutral hx, stepGround_of_isNeutral hy]
  · apply step_congr
    · rw [stepGround_second (hquote hx), stepGround_second (hquote hy)]
    · intro mode
      rw [stepInside_take_one, stepInside_take_one mode c (d :: y :: r')]
      rfl

/-- A character whose own reading does not hang on what follows it. -/
def isSettled (c : Char) : Bool :=
  !(c == '/' || c == '*' || c == '"' || c == '@' || c == '$' || c == '\\')

theorem step_of_isSettled {x : Char} (hx : isSettled x = true) (s : State) (b b' : Text) :
    step s x b = step s x b' := by
  simp only [isSettled, Bool.not_eq_true', Bool.or_eq_false_iff, beq_eq_false_iff_ne] at hx
  apply step_congr
  · have hground : ∀ r, stepGround x r = stepGround x [] := by
      intro r
      unfold stepGround
      split <;> simp_all
    rw [hground b, hground b']
  · intro mode
    cases mode <;> simp [stepInside, hx]

theorem alike_of_isSettled {x : Char} (hx : isSettled x = true) (b b' : Text) :
    Alike (x :: b) (x :: b') := by
  simp only [isSettled, Bool.not_eq_true', Bool.or_eq_false_iff, beq_eq_false_iff_ne] at hx
  have hground : ∀ c r, stepGround c (x :: r) = stepGround c [x] := by
    intro c r
    unfold stepGround
    split <;> simp_all
  intro s c
  refine ⟨step_congr ?_ ?_, fun d => step_congr ?_ ?_⟩
  · rw [hground c b, hground c b']
  · intro mode
    rw [stepInside_take_one, stepInside_take_one mode c (x :: b')]
    rfl
  · rw [stepGround_take_two, stepGround_take_two c (d :: x :: b')]
    rfl
  · intro mode
    rw [stepInside_take_one, stepInside_take_one mode c (d :: x :: b')]
    rfl

/-- A front whose last character is settled is read alike whatever follows it. -/
theorem stateAfter_settled {a : Text} (ha : ∀ x, a.getLast? = some x → isSettled x = true)
    (s : State) (b b' : Text) :
    stateAfter s a b = stateAfter s a b' ∧ maskIn s a b = maskIn s a b' := by
  rcases List.eq_nil_or_concat a with rfl | ⟨front, x, rfl⟩
  · exact ⟨rfl, rfl⟩
  · rw [List.concat_eq_append] at ha ⊢
    have hx : isSettled x = true := ha x (by simp)
    obtain ⟨hstate, hmask⟩ := stateAfter_of_alike (alike_of_isSettled hx b b') s front
    have hstep := step_of_isSettled hx (stateAfter s front (x :: b)) b b'
    rw [stateAfter_append, stateAfter_append, maskIn_append, maskIn_append]
    simp only [List.singleton_append, stateAfter, maskIn, List.nil_append]
    rw [← hstate, ← hmask, hstep]
    exact ⟨rfl, rfl⟩

/-! ## Offsets outside of comments and literals -/

/-- The offset lies outside of comments and literals. -/
def Outside (code : Text) (offset : Nat) : Prop :=
  stateAfter .ground (code.take offset) (code.drop offset) = .ground

instance (code : Text) (offset : Nat) : Decidable (Outside code offset) :=
  inferInstanceAs (Decidable (_ = _))

/-- The mask at a cut. -/
theorem mask_cut (code : Text) (offset : Nat) :
    mask code = maskIn .ground (code.take offset) (code.drop offset)
      ++ maskFrom (stateAfter .ground (code.take offset) (code.drop offset)) (code.drop offset) := by
  rw [← maskFrom_append, List.take_append_drop, mask_eq_maskFrom]

theorem mask_take (code : Text) (offset : Nat) :
    (mask code).take offset = maskIn .ground (code.take offset) (code.drop offset) := by
  rw [mask_cut code offset]
  rcases Nat.le_total offset code.length with h | h
  · exact List.take_left' (by simp [h])
  · rw [List.drop_eq_nil_of_le h]
    simp [List.take_of_length_le, h]

theorem mask_drop (code : Text) (offset : Nat) :
    (mask code).drop offset
      = maskFrom (stateAfter .ground (code.take offset) (code.drop offset)) (code.drop offset) := by
  rw [mask_cut code offset]
  rcases Nat.le_total offset code.length with h | h
  · exact List.drop_left' (by simp [h])
  · rw [List.drop_eq_nil_of_le h]
    simp [h]

/-- **A visible character of the mask** is the script's own and lies outside, with what is in front
of it and what is behind it. -/
theorem visible_outside {code A B : Text} {x : Char} (h : mask code = A ++ x :: B)
    (hx : isVisible x = true) :
    code.drop A.length = x :: code.drop (A.length + 1)
      ∧ Outside code A.length ∧ Outside code (A.length + 1) := by
  have hdrop := mask_drop code A.length
  rw [h, List.drop_left] at hdrop
  have hanch : Anchored .ground (code.take A.length ++ code.drop A.length) := by
    rw [List.take_append_drop]
    exact anchored_ground code
  cases hb : code.drop A.length with
  | nil =>
    rw [hb] at hdrop
    cases hdrop
  | cons c rest =>
    rw [hb] at hdrop hanch
    rw [maskFrom_cons, List.cons.injEq] at hdrop
    obtain ⟨hstate, hcode⟩ := visible_step hanch.stateAfter (by rw [← hdrop.1]; exact hx)
    rw [hstate] at hdrop
    have hc : c = x := by rw [hdrop.1, shown_of_code hcode]
    have hrest : code.drop (A.length + 1) = rest := by rw [← List.drop_drop, hb]; rfl
    have htake : code.take (A.length + 1) = code.take A.length ++ [c] := by
      rw [List.take_add, hb]
      rfl
    refine ⟨by rw [hc, hrest], by rw [Outside, hb]; exact hstate, ?_⟩
    rw [Outside, hrest, htake, stateAfter_append]
    simp only [List.singleton_append, stateAfter, List.nil_append, hstate]
    rw [show step .ground c rest = stepGround c rest from rfl, hcode]

/-- Where the mask is visible it is the script. -/
theorem slice_of_visible {code A U B : Text} (h : mask code = A ++ U ++ B)
    (hU : ∀ c ∈ U, isVisible c = true) :
    Text.slice code A.length (A.length + U.length) = U := by
  rw [Text.slice_add]
  induction U generalizing A with
  | nil => rfl
  | cons x U ih =>
    obtain ⟨hdrop, -⟩ := visible_outside (by simpa using h : _ = A ++ x :: (U ++ B)) (hU x (by simp))
    have hrest := ih (A := A ++ [x]) (by simpa using h) (fun c hc => hU c (by simp [hc]))
    rw [List.length_append, List.length_singleton] at hrest
    rw [hdrop, List.length_cons, List.take_succ_cons, hrest]

/-- Behind an offset inside of a comment or literal the mask goes on with a blank. -/
theorem not_isVisible_of_not_outside {code : Text} {offset : Nat} (h : ¬ Outside code offset)
    {x : Char} (hx : ((mask code).drop offset).head? = some x) : isVisible x = false := by
  obtain ⟨B, hB⟩ := List.head?_eq_some_iff.mp hx
  rw [Bool.eq_false_iff]
  intro hv
  have hlen : ((mask code).take offset).length = offset := by
    have hpos : 0 < ((mask code).drop offset).length := by simp [hB]
    rw [List.length_drop] at hpos
    rw [List.length_take]
    omega
  have hcut : mask code = (mask code).take offset ++ x :: B := by
    rw [← hB, List.take_append_drop]
  have hout := (visible_outside hcut hv).2.1
  rw [hlen] at hout
  exact h hout

/-! ## Text that opens nothing -/

/-- A character that opens nothing outside of comments and literals. -/
def isInert (c : Char) : Bool :=
  !(c == '/' || c == '@' || c == '$' || c == '"' || c == '\'')

theorem stepGround_of_isInert {c : Char} (hc : isInert c = true) (rest : Text) :
    stepGround c rest = (.code, .ground) := by
  simp only [isInert, Bool.not_eq_true', Bool.or_eq_false_iff, beq_eq_false_iff_ne] at hc
  unfold stepGround
  split <;> simp_all

/-- Inert text is code and leaves the scanner outside. -/
theorem maskIn_of_isInert {v : Text} (hv : ∀ c ∈ v, isInert c = true) (b : Text) :
    stateAfter .ground v b = .ground ∧ maskIn .ground v b = v := by
  induction v with
  | nil => exact ⟨rfl, rfl⟩
  | cons c v ih =>
    have hcode := stepGround_of_isInert (hv c (by simp)) (v ++ b)
    have hstep : step .ground c (v ++ b) = (.code, .ground) := hcode
    obtain ⟨hstate, hmask⟩ := ih (fun x hx => hv x (by simp [hx]))
    simp only [stateAfter, maskIn, hstep]
    exact ⟨hstate, by rw [hmask]; rfl⟩

theorem maskFrom_inert_append {v : Text} (hv : ∀ c ∈ v, isInert c = true) (b : Text) :
    maskFrom .ground (v ++ b) = v ++ maskFrom .ground b := by
  rw [maskFrom_append, (maskIn_of_isInert hv b).1, (maskIn_of_isInert hv b).2]

/-- **Insertion outside.** Inert text that is put outside of comments and literals, behind a
settled character, stands in the mask and changes nothing else in it. -/
theorem mask_insertAt {code v : Text} {offset : Nat} (hout : Outside code offset)
    (hlast : ∀ x, (code.take offset).getLast? = some x → isSettled x = true)
    (hv : ∀ c ∈ v, isInert c = true) :
    mask (Text.insertAt code offset v)
      = (mask code).take offset ++ v ++ (mask code).drop offset := by
  obtain ⟨hstate, hmask⟩ := stateAfter_settled hlast .ground (v ++ code.drop offset)
    (code.drop offset)
  have hdrop := mask_drop code offset
  rw [show stateAfter .ground _ _ = State.ground from hout] at hdrop
  rw [Text.insertAt_eq, mask_eq_maskFrom, maskFrom_append, hstate,
    hmask, show stateAfter .ground _ _ = State.ground from hout, maskFrom_inert_append hv,
    mask_take, hdrop, List.append_assoc]

/-- What is put outside of comments and literals, behind a settled character, is read as if from the
start. -/
theorem outside_insertAt_iff {code v u w : Text} {offset : Nat} (hout : Outside code offset)
    (hlast : ∀ x, (code.take offset).getLast? = some x → isSettled x = true)
    (hoffset : offset ≤ code.length) (hsplit : v ++ code.drop offset = u ++ w) :
    Outside (Text.insertAt code offset v) (offset + u.length) ↔ stateAfter .ground u w = .ground := by
  have hlen : (code.take offset).length = offset := List.length_take_of_le hoffset
  have htake : (Text.insertAt code offset v).take (offset + u.length) = code.take offset ++ u := by
    rw [Text.insertAt_eq, hsplit, List.take_append, hlen,
      List.take_of_length_le (by omega), Nat.add_sub_cancel_left, List.take_left]
  have hdrop : (Text.insertAt code offset v).drop (offset + u.length) = w := by
    rw [Text.insertAt_eq, hsplit, List.drop_append, hlen,
      List.drop_of_length_le (by omega), Nat.add_sub_cancel_left, List.nil_append, List.drop_left]
  have hstate := (stateAfter_settled hlast .ground (u ++ w) (code.drop offset)).1
  rw [Outside, htake, hdrop, stateAfter_append, hstate,
    show stateAfter .ground _ _ = State.ground from hout]

/-- **Outside stays outside:** inside of inert text, -/
theorem outside_insertAt_within {code v v' : Text} {offset : Nat} (hout : Outside code offset)
    (hlast : ∀ x, (code.take offset).getLast? = some x → isSettled x = true)
    (hoffset : offset ≤ code.length) (hv : ∀ c ∈ v, isInert c = true) :
    Outside (Text.insertAt code offset (v ++ v')) (offset + v.length) := by
  rw [outside_insertAt_iff hout hlast hoffset (List.append_assoc v v' _)]
  exact (maskIn_of_isInert hv _).1

/-- behind it, -/
theorem outside_insertAt_behind {code v : Text} {offset n : Nat} (hout : Outside code offset)
    (hlast : ∀ x, (code.take offset).getLast? = some x → isSettled x = true)
    (hv : ∀ c ∈ v, isInert c = true) (hn : offset + n ≤ code.length)
    (h : Outside code (offset + n)) : Outside (Text.insertAt code offset v) (offset + n + v.length) := by
  have hsplit : v ++ code.drop offset
      = (v ++ (code.drop offset).take n) ++ code.drop (offset + n) := by
    rw [List.append_assoc, ← List.drop_drop, List.take_append_drop]
  have hlen : offset + n + v.length = offset + (v ++ (code.drop offset).take n).length := by
    rw [List.length_append, List.length_take, List.length_drop]
    omega
  rw [hlen, outside_insertAt_iff hout hlast (by omega) hsplit, stateAfter_append,
    (maskIn_of_isInert hv _).1]
  rw [Outside, List.take_add, stateAfter_append] at h
  have hrest : (code.drop offset).take n ++ code.drop (offset + n) = code.drop offset := by
    rw [← List.drop_drop, List.take_append_drop]
  rwa [hrest, show stateAfter .ground _ _ = State.ground from hout] at h

/-- What starts and ends with visible code lies outside with both its ends. -/
theorem outside_ends {code A U B : Text} {x z : Char} (h : mask code = A ++ U ++ B)
    (hx : U.head? = some x) (hxv : isVisible x = true) (hz : U.getLast? = some z)
    (hzv : isVisible z = true) :
    code.drop A.length = x :: code.drop (A.length + 1) ∧ Outside code A.length
      ∧ Outside code (A.length + U.length) := by
  obtain ⟨U', hU⟩ := List.head?_eq_some_iff.mp hx
  obtain ⟨Z, rfl⟩ := List.getLast?_eq_some_iff.mp hz
  obtain ⟨hfirst, houtA, -⟩ := visible_outside (by rw [h, hU]; simp : _ = A ++ x :: (U' ++ B)) hxv
  have hcut : mask code = (A ++ Z) ++ z :: B := by rw [h]; simp
  have hlen : (A ++ Z).length + 1 = A.length + (Z ++ [z]).length := by
    simp only [List.length_append, List.length_singleton]
    omega
  have houtB := (visible_outside hcut hzv).2.2
  rw [hlen] at houtB
  exact ⟨hfirst, houtA, houtB⟩

/-- **Replacement of code.** Inert text that takes the place of visible code stands in the mask in
its place and changes nothing else in it. -/
theorem mask_splice {code A U B v : Text} {x y z : Char} (h : mask code = A ++ U ++ B)
    (hx : U.head? = some x) (hxv : isVisible x = true) (hxn : isNeutral x = true)
    (hz : U.getLast? = some z) (hzv : isVisible z = true)
    (hy : v.head? = some y) (hyn : isNeutral y = true) (hv : ∀ c ∈ v, isInert c = true) :
    mask (Text.splice code A.length (A.length + U.length) v) = A ++ v ++ B := by
  obtain ⟨hfirst, houtA, houtB⟩ := outside_ends h hx hxv hz hzv
  obtain ⟨v', rfl⟩ := List.head?_eq_some_iff.mp hy
  have hA : maskIn .ground (code.take A.length) (code.drop A.length) = A := by
    rw [← mask_take, h, List.append_assoc, List.take_left]
  have hB : maskFrom .ground (code.drop (A.length + U.length)) = B := by
    have hdrop := mask_drop code (A.length + U.length)
    rw [show stateAfter .ground _ _ = State.ground from houtB] at hdrop
    rw [← hdrop, h, ← List.length_append, List.drop_left]
  have halike : Alike (code.drop A.length) (y :: v' ++ code.drop (A.length + U.length)) := by
    rw [hfirst]
    exact alike_of_isNeutral hxn hyn _ _
  obtain ⟨hstate, hmask⟩ := stateAfter_of_alike halike .ground (code.take A.length)
  rw [Text.splice, List.append_assoc, mask_eq_maskFrom, maskFrom_append, ← hstate, ← hmask,
    show stateAfter .ground _ _ = State.ground from houtA, maskFrom_inert_append hv, hA, hB,
    List.append_assoc]

/-! ## Line starts -/

/-- The offset starts a line of the text. -/
def StartsLine (t : Text) (offset : Nat) : Prop :=
  offset ≤ t.length ∧ ∀ x, (t.take offset).getLast? = some x → x = '\n'

/-- What stands in front of a line is settled, since a line feed is. -/
theorem StartsLine.settled {t : Text} {offset : Nat} (h : StartsLine t offset) :
    ∀ x, (t.take offset).getLast? = some x → isSettled x = true := by
  intro x hx
  rw [h.2 x hx]
  decide

/-- and at the starts of lines in front of it. -/
theorem outside_insertAt_front {code v : Text} {offset start : Nat} (hline : StartsLine code start)
    (hle : start ≤ offset) (hoffset : offset ≤ code.length) (h : Outside code start) :
    Outside (Text.insertAt code offset v) start := by
  have htake : (Text.insertAt code offset v).take start = code.take start := by
    rw [Text.insertAt, Text.take_splice hle hoffset]
  rw [Outside, htake, (stateAfter_settled hline.settled .ground _ (code.drop start)).1]
  exact h

/-- Lines of a script and of its mask start at the same offsets. -/
theorem startsLine_mask {code : Text} {offset : Nat} :
    StartsLine (mask code) offset ↔ StartsLine code offset := by
  rw [StartsLine, StartsLine, length_mask, mask_take]
  apply and_congr_right'
  rcases List.eq_nil_or_concat (code.take offset) with hnil | ⟨front, c, hfront⟩
  · rw [hnil]
    simp [maskIn]
  · rw [hfront, List.concat_eq_append, maskIn_append]
    simp only [maskIn, List.getLast?_append, List.getLast?_singleton, Option.some_or,
      Option.some.injEq, forall_eq', shown_eq_iff_of_isTerminator (x := '\n') rfl]

/-- Behind a line feed the scanner is outside, in a block comment or in a verbatim literal. -/
theorem stateAfter_lineFeed {s : State} {a b : Text} (hs : Anchored s (a ++ '\n' :: b)) :
    let after := stateAfter s (a ++ ['\n']) b
    after = .ground ∨ after = ⟨.blockComment, 0⟩ ∨ after = ⟨.verbatim, 0⟩ := by
  have hanch := hs.stateAfter
  rw [stateAfter_append]
  simp only [List.singleton_append, stateAfter, List.nil_append]
  generalize stateAfter s a ('\n' :: b) = t at hanch ⊢
  obtain ⟨mode, held⟩ := t
  cases held with
  | succ held => exact absurd (hanch.held '\n' (by simp)) (by decide)
  | zero =>
    cases mode with
    | blockEnd => exact absurd (hanch.blockEnd rfl).2 (by simp)
    | ground | lineComment | quoted => exact .inl rfl
    | blockComment => exact .inr (.inl rfl)
    | verbatim => exact .inr (.inr rfl)

/-- **Text without closers:** it ends neither a block comment nor a verbatim literal, whatever follows
it. -/
structure Unclosing (v : Text) : Prop where
  comment : ¬ ['*', '/'] <:+: v
  /-- No star is left for a slash that follows. -/
  last : v.getLast? ≠ some '*'
  literal : '"' ∉ v

theorem unclosing_of_forall {v : Text} (hv : ∀ c ∈ v, c ≠ '*' ∧ c ≠ '"') : Unclosing v where
  comment hstar := (hv '*' (hstar.subset (by simp))).1 rfl
  last hlast := (hv '*' (List.mem_of_getLast? hlast)).1 rfl
  literal hmem := (hv '"' hmem).2 rfl

theorem Unclosing.tail {c : Char} {v : Text} (h : Unclosing (c :: v)) : Unclosing v where
  comment hend := h.comment (hend.trans (List.suffix_cons c v).isInfix)
  last hlast := h.last (by rw [List.getLast?_cons, hlast, Option.getD_some])
  literal hmem := h.literal (List.mem_cons_of_mem c hmem)

/-- Each character of it leaves the scanner inside. -/
theorem Unclosing.stays {c : Char} {v : Text} (h : Unclosing (c :: v)) {mode : Mode}
    (hmode : mode = .blockComment ∨ mode = .verbatim) (b : Text) :
    step ⟨mode, 0⟩ c (v ++ b) = (mode.region, ⟨mode, 0⟩) := by
  rcases hmode with rfl | rfl
  · -- a star has no slash behind it: in the text by `comment`, behind the text by `last`
    have hopen : (c == '*' && (v ++ b).head? == some '/') = false := by
      rw [Bool.eq_false_iff]
      intro hclose
      obtain ⟨rfl, hslash⟩ : c = '*' ∧ (v ++ b).head? = some '/' := by simpa only
        [Bool.and_eq_true, beq_iff_eq] using hclose
      cases v with
      | nil => exact h.last rfl
      | cons d v =>
        obtain rfl : d = '/' := Option.some.inj hslash
        exact h.comment ⟨[], v, rfl⟩
    simp only [step, Mode.endsWithLine, Bool.false_and, Bool.false_eq_true, if_false, stepInside, hopen]
  · have hquote : c ≠ '"' := fun hc => h.literal (hc ▸ List.mem_cons_self)
    simp [step, Mode.endsWithLine, stepInside, hquote]

/-- Text without closers stays inside of the comment or literal that it stands in. -/
theorem maskIn_inside {mode : Mode} (hmode : mode = .blockComment ∨ mode = .verbatim) {v : Text}
    (hv : Unclosing v) (b : Text) :
    stateAfter ⟨mode, 0⟩ v b = ⟨mode, 0⟩ ∧ maskIn ⟨mode, 0⟩ v b = v.map blankOut := by
  induction v with
  | nil => exact ⟨rfl, rfl⟩
  | cons c v ih =>
    have hregion : shown mode.region c = blankOut c := by
      rcases hmode with rfl | rfl <;> rfl
    obtain ⟨hstate, hmask⟩ := ih hv.tail
    simp only [stateAfter, maskIn, hv.stays hmode b, hregion]
    exact ⟨hstate, by rw [hmask]; rfl⟩

/-- At the start of a line inside of a token the scanner is in a block comment or in a verbatim literal. -/
theorem stateAfter_inside {code : Text} {offset : Nat} (hline : StartsLine code offset)
    (hin : ¬ Outside code offset) :
    ∃ mode, (mode = .blockComment ∨ mode = .verbatim)
      ∧ stateAfter .ground (code.take offset) (code.drop offset) = ⟨mode, 0⟩ := by
  rcases List.eq_nil_or_concat (code.take offset) with hnil | ⟨front, x, hfront⟩
  · rw [Outside, hnil] at hin
    exact absurd rfl hin
  · rw [List.concat_eq_append] at hfront
    obtain rfl : x = '\n' := hline.2 x (by rw [hfront]; simp)
    have hanch : Anchored .ground (front ++ '\n' :: code.drop offset) := anchored_ground _
    rcases stateAfter_lineFeed hanch with h | h | h
    · rw [Outside, hfront] at hin
      exact absurd h hin
    · exact ⟨.blockComment, .inl rfl, by rw [hfront]; exact h⟩
    · exact ⟨.verbatim, .inr rfl, by rw [hfront]; exact h⟩

/-- **Insertion between the lines of a token.** Text without closers is blanked there and changes
nothing else in the mask. -/
theorem mask_insertAt_inside {code v : Text} {offset : Nat} (hline : StartsLine code offset)
    (hin : ¬ Outside code offset) (hv : Unclosing v) :
    mask (Text.insertAt code offset v)
      = (mask code).take offset ++ v.map blankOut ++ (mask code).drop offset := by
  obtain ⟨mode, hmode, hafter⟩ := stateAfter_inside hline hin
  obtain ⟨hstate, hmask⟩ := stateAfter_settled hline.settled .ground (v ++ code.drop offset) (code.drop offset)
  obtain ⟨hinstate, hinmask⟩ := maskIn_inside hmode hv (code.drop offset)
  rw [Text.insertAt_eq, mask_eq_maskFrom, maskFrom_append, hstate,
    hmask, hafter, maskFrom_append, hinstate, hinmask, ← hafter, ← mask_drop, ← mask_take,
    List.append_assoc]

end ChartLint.Lexing
