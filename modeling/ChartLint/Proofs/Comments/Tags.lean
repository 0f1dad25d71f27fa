import ChartLint.Proofs.Lexing.Uncomment
import ChartLint.Proofs.Pattern.Kept
import ChartLint.Proofs.Pattern.Preferred
import ChartLint.Proofs.Rule.Readings

/-!
# Tags and comments

A tag is a literal, so the check of drawing tags reads it from the script: it skips blanks behind the
comma, takes the argument that follows and looks for a literal at its start. A comment gets in its way in
two places. In front of the tag it hides the literal (`Fronted`), and a literal that is not closed on its
line is read on through a comment up to the next quote (`Torn`).

Nowhere else does a comment matter to the rule (`resource_uncomment`). In `fronted` the tag is fixed, and
the drawing is not reported.
-/

namespace ChartLint.Rule.Resource

open Text Pattern Lexing Source

/-! ## The literal at the start of a tag -/

/-- The text starts with a literal: signs, a quote, the content and the next quote. -/
structure Quoted (expr signs content rest : Text) : Prop where
  cut : expr = signs ++ '"' :: (content ++ '"' :: rest)
  sign : ∀ c ∈ signs, oneOf ['$', '@'] c = true
  content : ∀ c ∈ content, noneOf ['"'] c = true

/-- The match of a literal with so many signs and so long a content. -/
def quotedMatch (signs content : Nat) : Match :=
  ⟨0, signs + 1 + content + 1, [(.name, ⟨signs + 1, signs + 1 + content⟩)]⟩

variable {expr signs content rest : Text}

/-- **What the pattern finds** is the literal. -/
theorem Quoted.matchAt? (h : Quoted expr signs content rest) :
    tagLiteral.matchAt? (Cursor.ofOffset expr 0) = some (quotedMatch signs.length content.length) := by
  have hstart : Cursor.ofOffset expr 0 = ⟨0, none, signs ++ '"' :: (content ++ '"' :: rest)⟩ := by
    rw [Cursor.ofOffset, if_pos rfl, List.drop_zero, h.cut]
  have hsigns := prefers_many h.sign (r := '"' :: (content ++ '"' :: rest)) rfl 0 none
  have hopen := prefers_literal ['"'] (0 + signs.length) (lastOr none signs) (content ++ '"' :: rest)
  have hcontent := (prefers_many h.content (r := '"' :: rest) rfl (0 + (signs ++ ['"']).length)
    (lastOr none (signs ++ ['"']))).keep .name
  have hclose := prefers_literal ['"'] (0 + (signs ++ ['"'] ++ content).length)
    (lastOr none (signs ++ ['"'] ++ content)) rest
  have hall := (((hsigns.append hopen).append hcontent).append hclose).matchAt?
  rw [hstart]
  refine hall.trans ?_
  simp only [quotedMatch, List.length_append, List.length_singleton, Nat.zero_add, List.nil_append,
    List.append_nil]

theorem Quoted.part (h : Quoted expr signs content rest) :
    (quotedMatch signs.length content.length).part .name expr = content := by
  have hspan : (quotedMatch signs.length content.length).span .name
      = ⟨signs.length + 1, signs.length + 1 + content.length⟩ := rfl
  have hcut : expr = (signs ++ ['"']) ++ (content ++ '"' :: rest) := by
    rw [h.cut, List.append_assoc, List.singleton_append]
  have hlength : signs.length + 1 = (signs ++ ['"']).length := by simp
  rw [Match.part, hspan, within, slice, hcut, hlength, List.take_length_add_append, List.drop_left,
    List.take_left]

theorem exists_quoted {m : Match} (h : tagLiteral.matchAt? (Cursor.ofOffset expr 0) = some m) :
    ∃ signs content rest, Quoted expr signs content rest := by
  obtain ⟨w, r, hsplit, hacc, -, -⟩ := accepts_of_matchAt? h
  obtain ⟨w₁, q₂, rfl, h₁, hq₂⟩ := accepts_append.mp hacc
  obtain ⟨w₂, content, rfl, h₂, hcontent⟩ := accepts_append.mp h₁
  obtain ⟨signs, q₁, rfl, hsigns, hq₁⟩ := accepts_append.mp h₂
  rw [accepts_text.mp hq₁, accepts_text.mp hq₂] at hsplit
  exact ⟨signs, content, r, by simpa using hsplit, hsigns, hcontent⟩

/-- A text starts with one literal at most. -/
theorem Quoted.unique {signs' content' rest' : Text} (h : Quoted expr signs content rest)
    (h' : Quoted expr signs' content' rest') : signs = signs' ∧ content = content' := by
  have hmatch := h.matchAt?.symm.trans h'.matchAt?
  simp only [quotedMatch, Option.some.injEq, Match.mk.injEq, List.cons.injEq, Prod.mk.injEq,
    Span.mk.injEq] at hmatch
  have hsigns : signs.length = signs'.length := by omega
  obtain ⟨rfl, hrest⟩ := List.append_inj (h.cut.symm.trans h'.cut) hsigns
  have hcontent : content.length = content'.length := by omega
  exact ⟨rfl, (List.append_inj (List.cons.inj hrest).2 hcontent).1⟩

/-- The front of a literal: its signs and the quote behind them. -/
theorem Quoted.front (h : Quoted expr signs content rest) {i : Nat} (hi : i < signs.length + 1) :
    ∃ c, expr[i]? = some c ∧ (c = '$' ∨ c = '@' ∨ c = '"') := by
  rcases Nat.lt_or_eq_of_le (Nat.le_of_lt_succ hi) with hlt | rfl
  · have hsign : signs[i] = '$' ∨ signs[i] = '@' := by
      simpa [oneOf] using h.sign _ (List.getElem_mem hlt)
    refine ⟨signs[i], ?_, hsign.imp_right Or.inl⟩
    rw [h.cut, List.getElem?_append_left hlt, List.getElem?_eq_getElem hlt]
  · exact ⟨'"', by rw [h.cut, List.getElem?_append_right (Nat.le_refl _), Nat.sub_self]; rfl, by simp⟩

theorem Quoted.lt_length (h : Quoted expr signs content rest) {i : Nat}
    (hi : i < signs.length + 1 + content.length + 1) : i < expr.length := by
  rw [h.cut]
  simp only [List.length_append, List.length_cons]
  omega

/-- Behind the front there is the content with its quote. -/
theorem Quoted.getElem?_content (h : Quoted expr signs content rest) (k : Nat) :
    expr[signs.length + 1 + k]? = (content ++ '"' :: rest)[k]? := by
  rw [h.cut, List.getElem?_append_right (by omega)]
  rw [show signs.length + 1 + k - signs.length = k + 1 by omega, List.getElem?_cons_succ]

/-- What agrees with a text as far as its literal goes starts with the same literal. -/
theorem Quoted.congr (h : Quoted expr signs content rest) {other : Text}
    (hsame : ∀ i < signs.length + 1 + content.length + 1, other[i]? = expr[i]?) :
    ∃ rest', Quoted other signs content rest' := by
  have hfront : other.take (signs.length + 1 + content.length + 1)
      = expr.take (signs.length + 1 + content.length + 1) := by
    refine List.ext_getElem? (fun i => ?_)
    rw [List.getElem?_take, List.getElem?_take]
    split
    · next hi => exact hsame i hi
    · rfl
  have hliteral : expr.take (signs.length + 1 + content.length + 1)
      = signs ++ '"' :: (content ++ ['"']) := by
    have hcut : expr = (signs ++ '"' :: (content ++ ['"'])) ++ rest := by simp [h.cut]
    rw [hcut]
    exact List.take_left' (by simp; omega)
  refine ⟨other.drop (signs.length + 1 + content.length + 1), ?_, h.sign, h.content⟩
  have hsplit := List.take_append_drop (signs.length + 1 + content.length + 1) other
  rw [hfront, hliteral] at hsplit
  simpa using hsplit.symm

/-- A quote in a text has a first one. -/
theorem exists_first_quote {t : Text} (h : '"' ∈ t) :
    ∃ content rest, t = content ++ '"' :: rest ∧ ∀ c ∈ content, noneOf ['"'] c = true := by
  obtain ⟨content, rest, rfl, hfirst⟩ := List.eq_append_cons_of_mem h
  exact ⟨content, rest, rfl, fun c hc => by simpa [noneOf] using (ne_of_mem_of_not_mem hc hfirst)⟩

/-- A literal that is seen without the comments starts at its place in the script, with the same signs. -/
theorem Quoted.of_visible (h : Quoted expr signs content rest) {other : Text}
    (hsame : ∀ (i : Nat) (x : Char), expr[i]? = some x → isVisible x = true → other[i]? = some x) :
    ∃ content' rest', Quoted other signs content' rest' := by
  have hfront : other.take (signs.length + 1) = signs ++ ['"'] := by
    have hexpr : expr.take (signs.length + 1) = signs ++ ['"'] := by
      have hcut : expr = (signs ++ ['"']) ++ (content ++ '"' :: rest) := by simp [h.cut]
      rw [hcut]
      exact List.take_left' (by simp)
    rw [← hexpr]
    refine List.ext_getElem? (fun i => ?_)
    rw [List.getElem?_take, List.getElem?_take]
    split
    · next hi =>
      -- signs and quotes are visible, so they are the script's own
      obtain ⟨c, hc, hkind⟩ := h.front hi
      rw [hc]
      exact hsame i c hc (by rcases hkind with rfl | rfl | rfl <;> rfl)
    · rfl
  have hclose : '"' ∈ other.drop (signs.length + 1) := by
    have hquote : expr[signs.length + 1 + content.length]? = some '"' := by
      rw [h.getElem?_content, List.getElem?_append_right (Nat.le_refl _), Nat.sub_self]
      rfl
    have hother := hsame _ _ hquote rfl
    rw [← List.getElem?_drop] at hother
    exact List.mem_of_getElem? hother
  obtain ⟨content', rest', hdrop, hcontent⟩ := exists_first_quote hclose
  refine ⟨content', rest', ?_, h.sign, hcontent⟩
  rw [← List.take_append_drop (signs.length + 1) other, hfront, hdrop, List.append_assoc]
  rfl

/-! ## Where a tag starts -/

/-- How far a run at the front of a text goes: up to the first character outside of the class. -/
theorem length_takeWhile_eq_iff {cls : Char → Bool} {t : Text} {n : Nat} :
    (t.takeWhile cls).length = n
      ↔ (∀ i < n, ∃ c, t[i]? = some c ∧ cls c = true) ∧ ∀ c, t[n]? = some c → cls c = false := by
  induction t generalizing n with
  | nil =>
    cases n with
    | zero => simp
    | succ n =>
      refine iff_of_false (by simp) (fun h => ?_)
      obtain ⟨c, hc, -⟩ := h.1 0 (Nat.succ_pos n)
      cases hc
  | cons c t ih =>
    cases hc : cls c with
    | false =>
      rw [List.takeWhile_cons_of_neg (by simp [hc])]
      cases n with
      | zero => simp [hc]
      | succ n =>
        refine iff_of_false (by simp) (fun h => ?_)
        obtain ⟨d, hd, htrue⟩ := h.1 0 (Nat.succ_pos n)
        rw [← Option.some.inj hd, hc] at htrue
        cases htrue
    | true =>
      rw [List.takeWhile_cons_of_pos hc]
      cases n with
      | zero => simp [hc]
      | succ n =>
        rw [List.length_cons, Nat.succ_inj, ih]
        simp only [List.getElem?_cons_succ]
        refine and_congr_left fun _ => ⟨fun h i hi => ?_, fun h i hi => h (i + 1) (Nat.succ_lt_succ hi)⟩
        cases i with
        | zero => exact ⟨c, rfl, hc⟩
        | succ i => exact h i (Nat.lt_of_succ_lt_succ hi)

section Tag

variable {code : Text} {call : Match}

/-- A drawing call ends with the comma in front of its tag. -/
theorem comma_of_found (hcall : Found drawing (mask code) call) :
    ∃ n, call.stop = n + 1 ∧ ¬ InComment code n := by
  obtain ⟨g, x, r, hmask, hm⟩ := hcall
  obtain ⟨w, r', rfl, hacc, -, hstop⟩ := accepts_of_matchAt? hm
  obtain ⟨w₁, w₂, rfl, -, h₂⟩ := accepts_append.mp hacc
  have hcomma : w₂ = [','] := accepts_text.mp h₂
  subst hcomma
  refine ⟨(g ++ w₁).length, ?_, ?_⟩
  · rw [hstop, List.length_append, List.length_append, List.length_singleton, Nat.add_assoc]
  · have hchar : (mask code)[(g ++ w₁).length]? = some ',' := by
      rw [hmask, List.append_assoc, ← List.append_assoc, List.getElem?_append_right (Nat.le_refl _),
        Nat.sub_self]
      rfl
    exact (not_inComment_of_mask hchar rfl).1

/-- Between the comma and the tag there are blanks, and the tag starts at the first other character. -/
theorem blanks_before_tag (code : Text) (call : Match) :
    ∃ n, (tagSpan (.ofCode code) call).start = call.stop + n
      ∧ (∀ i < n, ∃ c, code[call.stop + i]? = some c ∧ isBlank c = true)
      ∧ ∀ c, code[call.stop + n]? = some c → isBlank c = false := by
  have hrun := length_takeWhile_eq_iff.mp (rfl : ((code.drop call.stop).takeWhile isBlank).length = _)
  simp only [List.getElem?_drop] at hrun
  exact ⟨_, rfl, hrun⟩

/-- **A tag starts outside of comments or at one:** where it starts in a comment there is its slash. -/
theorem slash_of_inComment (hcall : Found drawing (mask code) call)
    (h : InComment code (tagSpan (.ofCode code) call).start) :
    code[(tagSpan (.ofCode code) call).start]? = some '/' := by
  obtain ⟨n, hstart, hblanks, -⟩ := blanks_before_tag code call
  obtain ⟨m, hstop, hout⟩ := comma_of_found hcall
  obtain ⟨k, hlow, hhigh, -, hslash⟩ := exists_slash_of_inComment hout h (by omega)
  rcases Nat.eq_or_lt_of_le hhigh with rfl | hlt
  · exact hslash
  · -- a slash is no blank
    obtain ⟨c, hc, hblank⟩ := hblanks (k - call.stop) (by omega)
    rw [show call.stop + (k - call.stop) = k by omega, hslash] at hc
    rw [← Option.some.inj hc] at hblank
    exact absurd hblank (by decide)

/-- A tag that starts outside of comments starts at the same place without them. -/
theorem tagSpan_uncomment (h : ¬ InComment code (tagSpan (.ofCode code) call).start) :
    tagSpan (.ofCode (uncomment code)) call = tagSpan (.ofCode code) call := by
  obtain ⟨n, hstart, hblanks, hend⟩ := blanks_before_tag code call
  have hskip : (((uncomment code).drop call.stop).takeWhile isBlank).length = n := by
    refine length_takeWhile_eq_iff.mpr ⟨fun i hi => ?_, fun c hc => ?_⟩
    · -- a blank in front of the tag stays one, whether it is in a comment or not
      obtain ⟨c, hc, hblank⟩ := hblanks i hi
      rw [List.getElem?_drop, getElem?_uncomment, hc]
      split
      · exact ⟨blankOut c, rfl, isBlank_blankOut c⟩
      · exact ⟨c, rfl, hblank⟩
    · rw [List.getElem?_drop, ← hstart, getElem?_uncomment_of_not_inComment h, hstart] at hc
      exact hend c hc
  have hstart' : (tagSpan (.ofCode (uncomment code)) call).start = (tagSpan (.ofCode code) call).start := by
    rw [hstart]
    exact congrArg (call.stop + ·) hskip
  have hspan : ∀ src : Source, tagSpan src call = argumentAt src.masked (tagSpan src call).start :=
    fun _ => rfl
  rw [hspan, hspan (.ofCode code), hstart', masked_uncomment]

/-- A character of a stretch of text. -/
theorem getElem?_within (t : Text) (s : Span) (i : Nat) :
    (t.within s)[i]? = if s.start + i < s.stop then t[s.start + i]? else none := by
  rw [within, slice, List.getElem?_drop, List.getElem?_take]

/-! ## What gets in the way -/

/-- A comment stands in front of the tag. -/
def Fronted (code : Text) (call : Match) : Prop :=
  InComment code (tagSpan (.ofCode code) call).start

/-- The literal that is read as the tag runs into a comment. -/
def Torn (code : Text) (call : Match) : Prop :=
  ∃ m ∈ tagLiteral.matchAt? (Cursor.ofOffset (code.within (tagSpan (.ofCode code) call)) 0),
    ∃ i < m.stop, InComment code ((tagSpan (.ofCode code) call).start + i)

instance (code : Text) (call : Match) : Decidable (Fronted code call) :=
  inferInstanceAs (Decidable (InComment _ _))

instance (code : Text) (call : Match) : Decidable (Torn code call) :=
  inferInstanceAs (Decidable (∃ m ∈ _, _))

/-- Behind a comment no literal is read. -/
theorem not_quoted_of_fronted (hcall : Found drawing (mask code) call) (h : Fronted code call)
    {signs content rest : Text} :
    ¬ Quoted (code.within (tagSpan (.ofCode code) call)) signs content rest := by
  intro hquoted
  obtain ⟨c, hc, hkind⟩ := hquoted.front (Nat.succ_pos _)
  rw [getElem?_within] at hc
  split at hc
  · rw [Nat.add_zero, slash_of_inComment hcall h] at hc
    rw [← Option.some.inj hc] at hkind
    revert hkind
    decide
  · cases hc

/-- Outside of comments the tag is read as it is without them, up to the first comment. -/
theorem getElem?_within_uncomment {span : Span} {i : Nat} (h : ¬ InComment code (span.start + i)) :
    ((uncomment code).within span)[i]? = (code.within span)[i]? := by
  rw [getElem?_within, getElem?_within, getElem?_uncomment_of_not_inComment h]

/-- A literal that is not torn is there without the comments. -/
theorem quoted_of_not_torn (htorn : ¬ Torn code call) {signs content rest : Text}
    (h : Quoted (code.within (tagSpan (.ofCode code) call)) signs content rest) :
    ∃ rest', Quoted ((uncomment code).within (tagSpan (.ofCode code) call)) signs content rest' := by
  refine h.congr (fun i hi => getElem?_within_uncomment (fun hin => htorn ?_))
  exact ⟨_, h.matchAt?, i, hi, hin⟩

/-- A literal that is there without the comments starts in the script, too. -/
theorem quoted_of_uncomment {span : Span} {signs content rest : Text}
    (h : Quoted ((uncomment code).within span) signs content rest) :
    ∃ content' rest', Quoted (code.within span) signs content' rest' := by
  refine h.of_visible (fun i x hx hvisible => ?_)
  rw [getElem?_within] at hx ⊢
  split at hx
  · next hi => rw [if_pos hi, (not_inComment_of_isVisible hx hvisible).2]
  · cases hx

/-- **A torn literal has another content:** it holds the slash of a comment. -/
theorem content_ne_of_torn (hfronted : ¬ Fronted code call) (htorn : Torn code call)
    {signs content rest content' rest' : Text}
    (h : Quoted (code.within (tagSpan (.ofCode code) call)) signs content rest)
    (h' : Quoted ((uncomment code).within (tagSpan (.ofCode code) call)) signs content' rest') :
    content ≠ content' := by
  obtain ⟨m, hm, i, hi, hin⟩ := htorn
  obtain rfl := Option.some.inj (h.matchAt?.symm.trans hm)
  -- the comment is entered behind the start of the tag, at a slash that the literal takes in
  obtain ⟨k, hlow, hhigh, hcomment, hslash⟩ :=
    exists_slash_of_inComment hfronted hin (Nat.le_add_right _ _)
  obtain ⟨j, rfl⟩ := Nat.exists_eq_add_of_le (Nat.le_of_lt hlow)
  have hinside : j < signs.length + 1 + content.length + 1 :=
    Nat.lt_of_le_of_lt (Nat.le_of_add_le_add_left hhigh) hi
  have hstop : (tagSpan (.ofCode code) call).start + j < (tagSpan (.ofCode code) call).stop := by
    by_contra hover
    have hend := getElem?_within code (tagSpan (.ofCode code) call) j
    rw [if_neg hover, List.getElem?_eq_none_iff] at hend
    exact absurd (h.lt_length hinside) (Nat.not_lt.mpr hend)
  have hscript : (code.within (tagSpan (.ofCode code) call))[j]? = some '/' := by
    rw [getElem?_within, if_pos hstop, hslash]
  have htwin : ((uncomment code).within (tagSpan (.ofCode code) call))[j]? = some ' ' := by
    rw [getElem?_within, if_pos hstop, getElem?_uncomment, if_pos hcomment, hslash]
    rfl
  -- the slash is in the content: it is neither a sign nor a quote
  have hfront : signs.length + 1 ≤ j := by
    by_contra hshort
    obtain ⟨c, hc, hkind⟩ := h.front (Nat.lt_of_not_le hshort)
    rw [hscript] at hc
    rw [← Option.some.inj hc] at hkind
    exact absurd hkind (by decide)
  obtain ⟨n, rfl⟩ := Nat.exists_eq_add_of_le hfront
  rw [h.getElem?_content] at hscript
  rw [h'.getElem?_content] at htwin
  rintro rfl
  rcases Nat.lt_or_ge n content.length with hn | hn
  · rw [List.getElem?_append_left hn] at hscript htwin
    rw [hscript] at htwin
    exact absurd htwin (by decide)
  · obtain rfl : n = content.length := by omega
    rw [List.getElem?_append_right (Nat.le_refl _), Nat.sub_self] at hscript
    exact absurd (Option.some.inj hscript) (by decide)

end Tag

/-! ## What is reported -/

/-- Whether code around a drawing call, which stands on the given line, varies from bar to bar. -/
def varies (src : Source) (call : Match) (line : Text) : Bool :=
  varying.occursIn (joinLines [line, src.masked.within (tagSpan src call)])

theorem staticTag?_of_quoted (src : Source) {call : Match} {signs content rest line : Text}
    (h : Quoted (src.code.within (tagSpan src call)) signs content rest)
    (hline : lineAt (lines src.masked) (lineOf src.masked call.start) = .ok line) :
    staticTag? src call
      = .ok (if varies src call line || isInterpolated (src.code.within (tagSpan src call)) content
        then none else some content) := by
  have hpart := h.part
  simp only [staticTag?, h.matchAt?, hpart, hline, map_ok]
  rfl

theorem staticTag?_of_not_quoted (src : Source) {call : Match}
    (h : ∀ signs content rest, ¬ Quoted (src.code.within (tagSpan src call)) signs content rest) :
    staticTag? src call = .ok none := by
  cases hm : tagLiteral.matchAt? (Cursor.ofOffset (src.code.within (tagSpan src call)) 0) with
  | none => simp only [staticTag?, hm]
  | some m =>
    obtain ⟨signs, content, rest, hquoted⟩ := exists_quoted hm
    exact absurd hquoted (h signs content rest)

/-- Whether a literal is interpolated is read off its signs and its content. -/
theorem Quoted.isInterpolated_eq {expr expr' signs content rest rest' : Text}
    (h : Quoted expr signs content rest) (h' : Quoted expr' signs content rest') :
    isInterpolated expr content = isInterpolated expr' content := by
  have hsign : ∀ u z z' : Text, ((u ++ '"' :: z).dropWhile (· == '@')).head?
      = ((u ++ '"' :: z').dropWhile (· == '@')).head? := by
    intro u z z'
    induction u with
    | nil => rfl
    | cons c u ih =>
      rw [List.cons_append, List.cons_append, List.dropWhile_cons, List.dropWhile_cons]
      split
      · exact ih
      · rfl
  rw [isInterpolated, isInterpolated, trimStartBy, trimStartBy, h.cut, h'.cut]
  rw [hsign signs _ (content ++ '"' :: rest')]

/-- What is said of a tag. -/
def tagFinding? (p : Platform) (masked : Text) (call : Match) (content : Text) : Option Finding :=
  let method := String.ofList (call.part .kind masked)
  let tag := String.ofList content
  if p.fixedDrawTags.contains tag then
    none
  else
    some (.error (lineOf masked call.start)
      (s!"Draw.{method} uses static tag \"{tag}\"; each bar overwrites the previous "
        ++ s!"drawing. Use \"{tag}\" + CurrentBar"))

theorem drawingFinding?_eq (p : Platform) (src : Source) (call : Match) :
    drawingFinding? p src call
      = if p.perBarDrawMethods.contains (String.ofList (call.part .kind src.masked)) then
          (staticTag? src call).map (fun fixed => fixed.bind (tagFinding? p src.masked call))
        else .ok none := by
  cases hmethod : p.perBarDrawMethods.contains (String.ofList (call.part .kind src.masked)) with
  | false => simp only [drawingFinding?, hmethod, Bool.not_false, if_true, Bool.false_eq_true, if_false]
  | true =>
    simp only [drawingFinding?, hmethod, Bool.not_true, Bool.false_eq_true, if_false, if_true]
    rcases staticTag? src call with _ | _ | _ <;> rfl

theorem exists_of_drawingFinding? {p : Platform} {src : Source} {call : Match} {f : Finding}
    (h : drawingFinding? p src call = .ok (some f)) :
    ∃ content, staticTag? src call = .ok (some content)
      ∧ tagFinding? p src.masked call content = some f := by
  obtain ⟨fixed, hfixed⟩ := exists_staticTag? src call
  rw [drawingFinding?_eq, hfixed, map_ok] at h
  split at h
  · obtain ⟨content, rfl, hsaid⟩ := Option.bind_eq_some_iff.mp (Except.ok.inj h)
    exact ⟨content, hfixed, hsaid⟩
  · cases h

theorem message_of_tagFinding? {p : Platform} {masked : Text} {call : Match} {content : Text} {f : Finding}
    (h : tagFinding? p masked call content = some f) :
    f.message.toList = "Draw.".toList ++ (call.part .kind masked ++ (" uses static tag \"".toList
      ++ (content ++ ("\"; each bar overwrites the previous ".toList
        ++ ("drawing. Use \"".toList ++ (content ++ "\" + CurrentBar".toList)))))) := by
  rw [tagFinding?] at h
  split at h
  · cases h
  · obtain rfl := Option.some.inj h
    simp only [Finding.error, toString, String.toList_append, String.toList_ofList, List.append_assoc]

/-- The tag can be read off what is said of it. -/
theorem tagFinding?_inj {p : Platform} {masked : Text} {call : Match} {content content' : Text}
    {f : Finding} (h : tagFinding? p masked call content = some f)
    (h' : tagFinding? p masked call content' = some f) : content = content' := by
  have hmessage := (message_of_tagFinding? h).symm.trans (message_of_tagFinding? h')
  have htail := List.append_cancel_left (List.append_cancel_left (List.append_cancel_left hmessage))
  -- the tag stands in the report twice, so its length is settled by that of the report
  have hlength : content.length = content'.length := by
    have htotal := congrArg List.length htail
    simp only [List.length_append] at htotal
    omega
  exact (List.append_inj htail hlength).1

/-! ## With and without the comments -/

section Twins

variable {code : Text} {call : Match}

/-- A tag is what the literal says. -/
theorem exists_quoted_of_staticTag? {src : Source} {content : Text}
    (h : staticTag? src call = .ok (some content)) :
    ∃ signs rest, Quoted (src.code.within (tagSpan src call)) signs content rest := by
  by_cases hquoted : ∃ signs content rest, Quoted (src.code.within (tagSpan src call)) signs content rest
  · obtain ⟨signs, content', rest, hquoted⟩ := hquoted
    obtain ⟨line, hline⟩ := exists_lineAt (t := src.masked) rfl call.start
    rw [staticTag?_of_quoted src hquoted hline] at h
    split at h
    · cases h
    · obtain rfl := Option.some.inj (Except.ok.inj h)
      exact ⟨signs, rest, hquoted⟩
  · rw [staticTag?_of_not_quoted src (fun signs content rest hq => hquoted ⟨signs, content, rest, hq⟩)] at h
    cases h

/-- A comment in front of the tag hides it. -/
theorem staticTag?_of_fronted (hcall : Found drawing (mask code) call) (h : Fronted code call) :
    staticTag? (.ofCode code) call = .ok none :=
  staticTag?_of_not_quoted (.ofCode code) (fun _ _ _ => not_quoted_of_fronted hcall h)

/-- **Nothing else does:** otherwise the tag is read as it is without the comments. -/
theorem staticTag?_uncomment (hfronted : ¬ Fronted code call) (htorn : ¬ Torn code call) :
    staticTag? (.ofCode (uncomment code)) call = staticTag? (.ofCode code) call := by
  have hspan := tagSpan_uncomment hfronted
  have hvaries : ∀ line, varies (.ofCode (uncomment code)) call line = varies (.ofCode code) call line := by
    intro line
    rw [varies, varies, hspan, masked_uncomment]
  by_cases hquoted : ∃ signs content rest,
      Quoted (code.within (tagSpan (.ofCode code) call)) signs content rest
  · obtain ⟨signs, content, rest, hscript⟩ := hquoted
    -- the same literal, so the same signs and the same content to look for holes in
    obtain ⟨rest', htwin⟩ := quoted_of_not_torn htorn hscript
    have hsame :
        isInterpolated ((Source.ofCode (uncomment code)).code.within (tagSpan (.ofCode code) call)) content
          = isInterpolated ((Source.ofCode code).code.within (tagSpan (.ofCode code) call)) content :=
      htwin.isInterpolated_eq hscript
    -- the call stands on the same line of the same mask
    obtain ⟨line, hline⟩ := exists_lineAt (t := (Source.ofCode code).masked) rfl call.start
    have hread : staticTag? (.ofCode (uncomment code)) call = _ :=
      staticTag?_of_quoted (.ofCode (uncomment code)) (by rw [hspan]; exact htwin)
        (by rw [masked_uncomment]; exact hline)
    rw [hread, staticTag?_of_quoted (.ofCode code) hscript hline, hvaries, hspan, hsame]
  · have hscript : ∀ signs content rest,
        ¬ Quoted (code.within (tagSpan (.ofCode code) call)) signs content rest :=
      fun signs content rest h => hquoted ⟨signs, content, rest, h⟩
    have htwin : ∀ signs content rest,
        ¬ Quoted ((uncomment code).within (tagSpan (.ofCode (uncomment code)) call)) signs content rest := by
      intro signs content rest h
      rw [hspan] at h
      obtain ⟨content', rest', h'⟩ := quoted_of_uncomment h
      exact hscript signs content' rest' h'
    rw [staticTag?_of_not_quoted (.ofCode code) hscript,
      staticTag?_of_not_quoted (.ofCode (uncomment code)) htwin]

/-- A torn tag is another one without the comments, if it is one at all. -/
theorem staticTag?_of_torn (hfronted : ¬ Fronted code call) (htorn : Torn code call)
    {content content' : Text} (h : staticTag? (.ofCode code) call = .ok (some content))
    (h' : staticTag? (.ofCode (uncomment code)) call = .ok (some content')) : content ≠ content' := by
  obtain ⟨signs, rest, hscript⟩ := exists_quoted_of_staticTag? h
  obtain ⟨signs', rest', htwin⟩ := exists_quoted_of_staticTag? h'
  rw [tagSpan_uncomment hfronted] at htwin
  obtain ⟨_, _, hfront⟩ := quoted_of_uncomment htwin
  obtain ⟨rfl, -⟩ := hscript.unique hfront
  exact content_ne_of_torn hfronted htorn hscript htwin

/-- **One drawing call:** with and without the comments the same is said of it unless a comment stands in
front of its tag or tears it; then the same is said only where nothing is. -/
theorem drawingFinding?_uncomment (p : Platform) (hcall : Found drawing (mask code) call) :
    drawingFinding? p (.ofCode code) call = drawingFinding? p (.ofCode (uncomment code)) call
      ↔ ¬ (Fronted code call ∨ Torn code call)
        ∨ (drawingFinding? p (.ofCode code) call = .ok none
          ∧ drawingFinding? p (.ofCode (uncomment code)) call = .ok none) := by
  constructor
  · intro h
    by_cases hway : Fronted code call ∨ Torn code call
    · right
      suffices hnone : drawingFinding? p (.ofCode code) call = .ok none from ⟨hnone, h.symm.trans hnone⟩
      obtain ⟨found, hf⟩ := exists_drawingFinding? p (.ofCode code) call
      rcases found with _ | f
      · exact hf
      exfalso
      obtain ⟨content, htag, hsaid⟩ := exists_of_drawingFinding? hf
      obtain ⟨content', htag', hsaid'⟩ := exists_of_drawingFinding? (h.symm.trans hf)
      rw [masked_uncomment] at hsaid'
      by_cases hfronted : Fronted code call
      · rw [staticTag?_of_fronted hcall hfronted] at htag
        cases htag
      · have hne := staticTag?_of_torn hfronted (hway.resolve_left hfronted) htag htag'
        exact hne (tagFinding?_inj hsaid hsaid')
    · exact .inl hway
  · rintro (hclear | ⟨h, h'⟩)
    · rw [not_or] at hclear
      rw [drawingFinding?_eq, drawingFinding?_eq, masked_uncomment,
        staticTag?_uncomment hclear.1 hclear.2]
    · rw [h, h']

end Twins

/-- The issues of the rule, by its findings. -/
theorem check_resource_inj {p : Platform} {src src' : Source} :
    (Rule.resource p).check src = (Rule.resource p).check src' ↔ findings p src = findings p src' := by
  have hname : Function.Injective (fun f : Finding => { f with check := (Rule.resource p).name : Issue }) :=
    fun f g h => congrArg Issue.toFinding h
  obtain ⟨found, hfound⟩ := exists_findings p src
  obtain ⟨found', hfound'⟩ := exists_findings p src'
  have hcheck : (Rule.resource p).check src = _ := check_eq hfound
  have hcheck' : (Rule.resource p).check src' = _ := check_eq hfound'
  rw [hcheck, hcheck', hfound, hfound', Except.ok.injEq, Except.ok.injEq]
  exact hname.list_map.eq_iff

/-- The rule says the same of a script and of its uncommented twin exactly if it says the same of their
drawings. -/
theorem check_eq_iff_drawingFindings (p : Platform) (code : Text) :
    (Rule.resource p).check (.ofCode code) = (Rule.resource p).check (.ofCode (uncomment code))
      ↔ drawingFindings p (.ofCode code) = drawingFindings p (.ofCode (uncomment code)) := by
  obtain ⟨series, hseries⟩ := exists_seriesFindings (Source.ofCode code).masked
  obtain ⟨indicators, hindicators⟩ := exists_indicatorFindings p (Source.ofCode code).masked
  obtain ⟨drawings, hdrawings⟩ := exists_drawingFindings p (.ofCode code)
  obtain ⟨drawings', hdrawings'⟩ := exists_drawingFindings p (.ofCode (uncomment code))
  rw [check_resource_inj, findings, findings, masked_uncomment, hseries, hindicators, hdrawings,
    hdrawings']
  simp only [ok_bind, pure, Except.pure, Except.ok.injEq]
  exact (List.append_cancel_left_eq _ _ _).to_iff

/-- **Tags and comments.** For all tables, the rule says the same of the script and of its uncommented twin
exactly if it says the same of their drawings. Of one drawing call it says the same unless a comment stands
in front of the tag or tears it. -/
theorem resource_uncomment (p : Platform) (code : Text) :
    ((Rule.resource p).check (.ofCode code) = (Rule.resource p).check (.ofCode (uncomment code))
        ↔ drawingFindings p (.ofCode code) = drawingFindings p (.ofCode (uncomment code)))
      ∧ (∀ call ∈ drawing.findAll (mask code),
        (drawingFinding? p (.ofCode code) call = drawingFinding? p (.ofCode (uncomment code)) call
          ↔ ¬ (Fronted code call ∨ Torn code call)
            ∨ (drawingFinding? p (.ofCode code) call = .ok none
              ∧ drawingFinding? p (.ofCode (uncomment code)) call = .ok none)))
      ∧ ((∀ call ∈ drawing.findAll (mask code), ¬ (Fronted code call ∨ Torn code call)) →
        (Rule.resource p).check (.ofCode code) = (Rule.resource p).check (.ofCode (uncomment code))) := by
  have hcalls : ∀ call ∈ drawing.findAll (mask code), _ := fun call hcall =>
    drawingFinding?_uncomment p (found_of_mem_findAll hcall)
  refine ⟨check_eq_iff_drawingFindings p code, hcalls, fun hclear => ?_⟩
  rw [check_eq_iff_drawingFindings, drawingFindings, drawingFindings, masked_uncomment]
  exact filterMapM_congr (fun call hcall => (hcalls call hcall).mpr (.inl (hclear call hcall)))

/-- A comment behind a fixed tag. -/
def annotated : Text :=
  "Draw.Dot(this, \"tag\" /* fixed */, false, 0);".toList

/-- It does not get in the way. -/
theorem resource_uncomment_annotated :
    (∀ call ∈ drawing.findAll (mask annotated), ¬ (Fronted annotated call ∨ Torn annotated call))
      ∧ (Rule.resource .nt8).check (.ofCode annotated)
        = (Rule.resource .nt8).check (.ofCode (uncomment annotated)) := by
  have hclear : ∀ call ∈ drawing.findAll (mask annotated),
      ¬ (Fronted annotated call ∨ Torn annotated call) := by
    decide +kernel
  exact ⟨hclear, (resource_uncomment .nt8 annotated).2.2 hclear⟩

/-- A comment in front of a fixed tag. -/
def fronted : Text :=
  "Draw.Dot(this, /* fixed */ \"tag\", false, 0);".toList

/-- **A comment hides a fixed tag:** only without it the drawing is reported. -/
theorem check_fronted :
    drawingFindings .nt8 (.ofCode fronted) = .ok []
      ∧ (drawingFindings .nt8 (.ofCode (uncomment fronted))).map List.length = .ok 1
      ∧ (Rule.resource .nt8).check (.ofCode fronted)
        ≠ (Rule.resource .nt8).check (.ofCode (uncomment fronted)) := by
  have hscript : drawingFindings .nt8 (.ofCode fronted) = .ok [] := by decide +kernel
  have htwin : (drawingFindings .nt8 (.ofCode (uncomment fronted))).map List.length = .ok 1 := by
    decide +kernel
  refine ⟨hscript, htwin, fun h => ?_⟩
  rw [← (check_eq_iff_drawingFindings .nt8 fronted).mp h, hscript] at htwin
  cases htwin

end ChartLint.Rule.Resource
