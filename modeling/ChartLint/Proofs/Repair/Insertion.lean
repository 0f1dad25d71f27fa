import ChartLint.Proofs.Balance
import ChartLint.Proofs.Lexing.Offsets
import ChartLint.Proofs.Pattern.Kept
import ChartLint.Proofs.Repair.Attribute
import ChartLint.Proofs.Repair.Brace
import ChartLint.Proofs.Repair.Steps
import ChartLint.Proofs.Rule.Readings

/-!
# What the repair inserts

A repair puts blocks into a script, one after the other, each on the text so far: an attribute line
at the start of a line, or a companion behind a closing brace or a semicolon
(`addAttribute_cases`, `addCompanion_cases`). The start of a line may lie inside a comment or a
verbatim literal, which then swallows the attribute; the end of a declaration never does.

Taken out again in the opposite order, the blocks leave the script as it was, and the balance rule
reads the script with and without them alike (`placed_addAttribute`, `placed_addCompanion`); both
facts carry over from one block to a whole run (`repaired_foldl`).
-/

namespace ChartLint

namespace Repair

open Pattern Source Text Rule Lexing

/-! ## Blocks -/

/-- What a property can lack. -/
inductive Part where
  | attribute
  | companion
deriving DecidableEq, Repr

/-- A character of an indentation. -/
def isIndent (c : Char) : Bool :=
  c == ' ' || c == '\t'

/-- A piece of text that a repair puts into a script on behalf of a property. -/
structure Block where
  prop : String
  part : Part
  /-- Where the piece starts in the script that it is put into. -/
  offset : Nat
  /-- The indentation of the lines of the piece. -/
  indent : Text
  isIndent_indent : ∀ c ∈ indent, isIndent c = true

/-- The line of the attribute. -/
def attributeLine (newline indent : Text) : Text :=
  indent ++ "[XmlIgnore]".toList ++ newline

namespace Block

/-- What the block is for. -/
def label (b : Block) : String × Part :=
  (b.prop, b.part)

/-- The text of the block. -/
def text (newline : Text) (b : Block) : Text :=
  match b.part with
  | .attribute => attributeLine newline b.indent
  | .companion => companionBlock newline b.indent b.prop.toList

/-- Takes the block out of a script. Its text has to stand there, an attribute at the start of a
line. -/
def delete (newline : Text) (b : Block) (t : Text) : Option Text :=
  if (b.text newline).isPrefixOf (t.drop b.offset)
      ∧ (b.part = .attribute → lineFront (t.take b.offset) = []) then
    some (splice t b.offset (b.offset + (b.text newline).length) [])
  else
    none

/-- Takes blocks out of a script, the last one first. -/
def deleteAll (newline : Text) : List Block → Text → Option Text
  | [], t => some t
  | b :: later, t => (deleteAll newline later t).bind (b.delete newline)

theorem deleteAll_append {newline : Text} {bs bs' : List Block} {t t' t'' : Text}
    (h' : deleteAll newline bs' t'' = some t') (h : deleteAll newline bs t' = some t) :
    deleteAll newline (bs ++ bs') t'' = some t := by
  induction bs generalizing t with
  | nil =>
    obtain rfl : t' = t := Option.some.inj h
    exact h'
  | cons b bs ih =>
    obtain ⟨u, hu, hb⟩ := Option.bind_eq_some_iff.mp h
    rw [List.cons_append, deleteAll, ih hu]
    exact hb

/-- What was put in can be taken out. -/
theorem delete_insertAt {newline t : Text} {b : Block} (hoffset : b.offset ≤ t.length)
    (hline : b.part = .attribute → lineFront (t.take b.offset) = []) :
    b.delete newline (insertAt t b.offset (b.text newline)) = some t := by
  have hlen : (t.take b.offset).length = b.offset := List.length_take_of_le hoffset
  have htake : (insertAt t b.offset (b.text newline)).take b.offset = t.take b.offset :=
    take_splice (Nat.le_refl _) hoffset _ _
  have hdrop : (insertAt t b.offset (b.text newline)).drop b.offset
      = b.text newline ++ t.drop b.offset := by
    rw [insertAt_eq]
    exact List.drop_left' hlen
  have hstands : (b.text newline).isPrefixOf
      ((insertAt t b.offset (b.text newline)).drop b.offset) = true := by
    rw [hdrop, List.isPrefixOf_iff_prefix]
    exact List.prefix_append _ _
  rw [delete, htake, if_pos ⟨hstands, hline⟩, splice, htake, ← List.drop_drop, hdrop,
    List.drop_left, List.append_nil, List.take_append_drop]

end Block

/-! ## What the blocks are made of -/

/-- The line break is one of the two that scripts have. -/
def IsNewline (newline : Text) : Prop :=
  newline = ['\n'] ∨ newline = ['\r', '\n']

theorem isNewline_lineBreak (t : Text) : IsNewline (lineBreak t) := by
  rw [lineBreak]
  split
  · exact .inr rfl
  · exact .inl rfl

/-- A character that a block may hold besides its delimiters and brackets. -/
def isQuiet (c : Char) : Bool :=
  isInert c && c != '#' && c != '*'

theorem isQuiet_of_isWord {c : Char} (h : isWord c = true) : isQuiet c = true := by
  have hne : ∀ d, isWord d = false → c ≠ d := fun _ => ne_of_class h
  have h₁ := hne '/' (by decide)
  have h₂ := hne '@' (by decide)
  have h₃ := hne '$' (by decide)
  have h₄ := hne '"' (by decide)
  have h₅ := hne '\'' (by decide)
  have h₆ := hne '#' (by decide)
  have h₇ := hne '*' (by decide)
  simp [isQuiet, isInert, h₁, h₂, h₃, h₄, h₅, h₆, h₇]

theorem isInert_of_isQuiet {c : Char} (h : isQuiet c = true) : isInert c = true := by
  rw [isQuiet, Bool.and_eq_true, Bool.and_eq_true] at h
  exact h.1.1

theorem not_isDelimiter_of_isWord {c : Char} (h : isWord c = true) :
    Balance.isDelimiter c = false := by
  have hne : ∀ d, isWord d = false → c ≠ d := fun _ => ne_of_class h
  have h₁ := hne '{' (by decide)
  have h₂ := hne '(' (by decide)
  have h₃ := hne '[' (by decide)
  have h₄ := hne '}' (by decide)
  have h₅ := hne ')' (by decide)
  have h₆ := hne ']' (by decide)
  simp [Balance.isDelimiter, Balance.Delimiter.ofOpener?, Balance.Delimiter.ofCloser?,
    Balance.Delimiter.all, Balance.Delimiter.opener, Balance.Delimiter.closer, h₁.symm, h₂.symm,
    h₃.symm, h₄.symm, h₅.symm, h₆.symm]

theorem isIndent_indentOf (code : Text) (offset : Nat) : ∀ c ∈ indentOf code offset, isIndent c = true := by
  obtain ⟨l, hl⟩ := exists_lineAt (t := code) rfl offset
  have hindent : indentOf code offset = indent l := valueOf_eq _ (by rw [indentAt, hl, map_ok])
  rw [hindent]
  exact fun _ hc => List.mem_takeWhile_imp hc

section Texts

variable {newline indent prop : Text} (hnewline : IsNewline newline)
  (hindent : ∀ c ∈ indent, isIndent c = true) (hprop : ∀ c ∈ prop, isWord c = true)

include hnewline in
theorem forall_mem_newline {P : Char → Bool} (hfeed : P '\n' = true) (hreturn : P '\r' = true) :
    ∀ c ∈ newline, P c = true := by
  rcases hnewline with rfl | rfl <;> simp [hfeed, hreturn]

include hindent in
theorem forall_mem_indent {P : Char → Bool} (hspace : P ' ' = true) (htab : P '\t' = true) :
    ∀ c ∈ indent, P c = true := by
  intro c hc
  have hor : c = ' ' ∨ c = '\t' := by simpa [isIndent] using hindent c hc
  rcases hor with rfl | rfl
  · exact hspace
  · exact htab

include hnewline in
theorem filter_newline : newline.filter Balance.isDelimiter = [] := by
  rcases hnewline with rfl | rfl <;> decide

include hindent in
theorem filter_indent : indent.filter Balance.isDelimiter = [] := by
  have h := forall_mem_indent hindent (P := fun c => !Balance.isDelimiter c) (by decide) (by decide)
  simpa using h

include hnewline hindent

theorem isQuiet_attributeLine : ∀ c ∈ attributeLine newline indent, isQuiet c = true := by
  have hn := forall_mem_newline hnewline (P := isQuiet) (by decide) (by decide)
  have hi := forall_mem_indent hindent (P := isQuiet) (by decide) (by decide)
  rw [attributeLine, List.forall_mem_append, List.forall_mem_append]
  exact ⟨⟨hi, List.all_eq_true.mp (by decide)⟩, hn⟩

/-- The line of the attribute is one line, and no marker of a region. -/
theorem exists_attributeLine :
    ∃ line, '\n' ∉ line ∧ '#' ∉ line ∧ attributeLine newline indent = line ++ ['\n'] := by
  have hfeed := forall_mem_indent hindent (P := fun c => c != '\n' && c != '#') (by decide) (by decide)
  have hclean : ∀ {t : Text}, t.all (fun c => c != '\n' && c != '#') = true →
      '\n' ∉ indent ++ t ∧ '#' ∉ indent ++ t := by
    intro t ht
    rw [List.all_eq_true] at ht
    constructor
    · intro hmem
      rcases List.mem_append.mp hmem with hmem | hmem
      · cases hfeed _ hmem
      · cases ht _ hmem
    · intro hmem
      rcases List.mem_append.mp hmem with hmem | hmem
      · cases hfeed _ hmem
      · cases ht _ hmem
  rcases hnewline with rfl | rfl
  · obtain ⟨h₁, h₂⟩ := hclean (t := "[XmlIgnore]".toList) (by decide)
    exact ⟨_, h₁, h₂, rfl⟩
  · obtain ⟨h₁, h₂⟩ := hclean (t := "[XmlIgnore]".toList ++ ['\r']) (by decide)
    exact ⟨_, h₁, h₂, by simp [attributeLine]⟩

theorem filter_attributeLine :
    (attributeLine newline indent).filter Balance.isDelimiter = "[]".toList := by
  rw [attributeLine, List.filter_append, List.filter_append, filter_newline hnewline,
    filter_indent hindent]
  decide

theorem level_attributeLine : Balance.Level (attributeLine newline indent) := by
  apply Balance.level_of_filter
  rw [filter_attributeLine hnewline hindent]
  exact Balance.level_nil.enclosed .bracket

include hprop

theorem isQuiet_companionBlock :
    ∀ c ∈ companionBlock newline indent prop, isQuiet c = true := by
  have hn := forall_mem_newline hnewline (P := isQuiet) (by decide) (by decide)
  have hi := forall_mem_indent hindent (P := isQuiet) (by decide) (by decide)
  have hp : ∀ c ∈ prop, isQuiet c = true := fun c hc => isQuiet_of_isWord (hprop c hc)
  have hline : ∀ {t : Text}, (∀ c ∈ t, isQuiet c = true) →
      ∀ c ∈ newline ++ indent ++ t, isQuiet c = true := by
    intro t ht
    exact List.forall_mem_append.mpr ⟨List.forall_mem_append.mpr ⟨hn, hi⟩, ht⟩
  have hjoin : ∀ {t u : Text}, (∀ c ∈ t, isQuiet c = true) → (∀ c ∈ u, isQuiet c = true) →
      ∀ c ∈ t ++ u, isQuiet c = true :=
    fun ht hu => List.forall_mem_append.mpr ⟨ht, hu⟩
  have hfixed : ∀ {t : Text}, t.all isQuiet = true → ∀ c ∈ t, isQuiet c = true := List.all_eq_true.mp
  unfold companionBlock
  refine hjoin (hjoin (hjoin (hjoin (hjoin (hjoin hn (hline ?_)) (hline ?_)) (hline ?_)) (hline ?_))
    (hline ?_)) (hline ?_)
  · exact hfixed (by decide)
  · exact hjoin (hjoin (hfixed (by decide)) hp) (hfixed (by decide))
  · exact hfixed (by decide)
  · exact hjoin (hjoin (hfixed (by decide)) hp) (hfixed (by decide))
  · exact hjoin (hjoin (hfixed (by decide)) hp) (hfixed (by decide))
  · exact hfixed (by decide)

theorem filter_companionBlock :
    (companionBlock newline indent prop).filter Balance.isDelimiter
      = "[()]\x7b\x7b()\x7d\x7b()\x7d\x7d".toList := by
  have hn := filter_newline hnewline
  have hi := filter_indent hindent
  have hp : prop.filter Balance.isDelimiter = [] := by
    simpa using fun c hc => not_isDelimiter_of_isWord (hprop c hc)
  unfold companionBlock
  simp only [List.filter_append, hn, hi, hp, List.nil_append, List.append_nil]
  decide +kernel

theorem level_companionBlock : Balance.Level (companionBlock newline indent prop) := by
  apply Balance.level_of_filter
  rw [filter_companionBlock hnewline hindent hprop]
  have hcall := Balance.level_nil.enclosed .parenthesis
  have haccessor := hcall.enclosed .brace
  exact (hcall.enclosed .bracket).append ((haccessor.append haccessor).enclosed .brace)

end Texts

/-! ## One insertion -/

/-- A block was put into a script: it can be taken out, and the balance rule does not see it. -/
structure Placed (newline : Text) (code : Text) (b : Block) (code' : Text) : Prop where
  deleted : b.delete newline code' = some code
  alike : Balance.Alike (mask code') (mask code)

/-- **The attribute** is put at the start of a line. -/
theorem addAttribute_cases (newline code prop : Text) :
    addAttribute newline code prop = code
      ∨ ∃ offset indent, StartsLine code offset ∧ (∀ c ∈ indent, isIndent c = true)
        ∧ addAttribute newline code prop = insertAt code offset (attributeLine newline indent) := by
  rw [addAttribute_def]
  cases hm : declaration? (mask code) prop with
  | none => exact .inl rfl
  | some m =>
    obtain ⟨g, x, r, hmask, hmatch⟩ := found_of_find? hm
    obtain ⟨w, r', -, -, hstart, -⟩ := accepts_of_matchAt? hmatch
    have hle : m.start ≤ code.length := by
      rw [hstart, ← length_mask code, hmask, List.length_append]
      omega
    simp only
    split
    · exact .inl rfl
    · exact .inr ⟨_, _, startsLine_lineStartAt code hle, isIndent_indentOf code m.start, rfl⟩

/-- What stands behind a brace. -/
theorem drop_behind_brace (y z : Text) : (y ++ '}' :: z).drop (y.length + 1) = z := by
  rw [← List.drop_drop, List.drop_left]
  rfl

/-- A declaration ends with a brace or with a semicolon. -/
theorem declarationEnd_append (y z : Text) :
    ∃ a c b, y ++ '}' :: z = a ++ [c] ++ b ∧ c ∈ memberEnds
      ∧ declarationEnd (y ++ '}' :: z) y.length = a.length + 1 := by
  unfold declarationEnd
  cases hm : initialValue.matchAt? (Cursor.ofOffset (y ++ '}' :: z) (y.length + 1)) with
  | none => exact ⟨y, '}', z, by simp, by decide, rfl⟩
  | some m =>
    obtain ⟨w, r, hsplit, hacc, -, hstop⟩ := accepts_of_matchAt? hm
    rw [drop_behind_brace] at hsplit
    obtain ⟨w₁, w₂, rfl, -, hlast⟩ := accepts_append.mp hacc
    obtain rfl : w₂ = [';'] := accepts_text.mp hlast
    refine ⟨y ++ '}' :: w₁, ';', r, by rw [hsplit]; simp, by decide, ?_⟩
    simp only [hstop, List.length_append, List.length_cons, List.length_nil]
    omega

/-- **The companion** is put behind a brace or a semicolon. -/
theorem addCompanion_cases (newline code prop : Text) :
    addCompanion newline code prop = code
      ∨ ∃ a c b indent, mask code = a ++ [c] ++ b ∧ c ∈ memberEnds
        ∧ (∀ c ∈ indent, isIndent c = true)
        ∧ addCompanion newline code prop
          = insertAt code (a.length + 1) (companionBlock newline indent prop) := by
  rw [addCompanion_def]
  split
  · exact .inl rfl
  · cases hm : declaration? (mask code) prop with
    | none => exact .inl rfl
    | some m =>
      obtain ⟨g, x, t, hmask, hmatch⟩ := found_of_find? hm
      obtain ⟨w, r, hsplit, hacc, hstart, hstop⟩ := accepts_of_matchAt? hmatch
      obtain ⟨w', _, rfl, -, d, rfl, hd⟩ := accepts_append.mp hacc
      obtain rfl : d = '{' := by simpa using hd
      -- the match ends with the opening brace of the property
      have hbrace : mask code = (g ++ w') ++ '{' :: r := by rw [hmask, hsplit]; simp
      have hopener : m.stop - 1 = (g ++ w').length := by
        rw [hstop]
        simp
      simp only
      split
      · exact .inl rfl
      · next hclosed =>
        rw [hopener, ← length_mask, hbrace, matchingBrace_append] at hclosed
        cases hclose : closing? r with
        | none =>
          rw [hclose] at hclosed
          exact absurd (Nat.le_refl _) hclosed
        | some k =>
          obtain ⟨body, rest, rfl, hbody⟩ := closingFrom?_eq_some hclose
          have hend : matchingBrace (mask code) (m.stop - 1) = (g ++ w' ++ '{' :: body).length := by
            rw [hopener, hbrace, matchingBrace_append, hclose]
            simp only [List.length_append, List.length_cons]
            omega
          have hwhole : mask code = (g ++ w' ++ '{' :: body) ++ '}' :: rest := by rw [hbrace]; simp
          obtain ⟨a, c, b, hcut, hc, hdeclaration⟩ :=
            declarationEnd_append (g ++ w' ++ '{' :: body) rest
          rw [← hwhole] at hcut hdeclaration
          refine .inr ⟨a, c, b, _, hcut, hc, isIndent_indentOf code m.start, ?_⟩
          rw [hend, hdeclaration]

/-- In the mask the line of the attribute is itself, or blank if a comment or a literal reaches over it. -/
theorem mask_insertAt_line {newline indent code : Text} {offset : Nat} (hnewline : IsNewline newline)
    (hindent : ∀ c ∈ indent, isIndent c = true) (hline : StartsLine code offset) :
    ∃ v, (v = attributeLine newline indent ∨ v = (attributeLine newline indent).map blankOut)
      ∧ mask (insertAt code offset (attributeLine newline indent))
        = (mask code).take offset ++ v ++ (mask code).drop offset := by
  have hquiet := isQuiet_attributeLine hnewline hindent
  by_cases hout : Outside code offset
  · exact ⟨_, .inl rfl,
      mask_insertAt hout hline.settled (fun c hc => isInert_of_isQuiet (hquiet c hc))⟩
  · have hstar : ∀ c ∈ attributeLine newline indent, c ≠ '*' ∧ c ≠ '"' := by
      intro c hc
      constructor
      all_goals
        rintro rfl
        cases hquiet _ hc
    exact ⟨_, .inr rfl, mask_insertAt_inside hline hout (unclosing_of_forall hstar)⟩

/-- Either way it is a line. -/
theorem mask_insertAt_attributeLine {newline indent code : Text} {offset : Nat}
    (hnewline : IsNewline newline) (hindent : ∀ c ∈ indent, isIndent c = true)
    (hline : StartsLine code offset) :
    ∃ line, mask (insertAt code offset (attributeLine newline indent))
        = (mask code).take offset ++ (line ++ ['\n']) ++ (mask code).drop offset
      ∧ '\n' ∉ line ∧ '#' ∉ line ∧ Balance.Level (line ++ ['\n']) := by
  obtain ⟨line, hfeed, hhash, heq⟩ := exists_attributeLine hnewline hindent
  obtain ⟨v, rfl | rfl, hmask⟩ := mask_insertAt_line hnewline hindent hline
  · refine ⟨line, by rw [hmask, heq], hfeed, hhash, ?_⟩
    rw [← heq]
    exact level_attributeLine hnewline hindent
  · have hblank : (attributeLine newline indent).map blankOut = line.map blankOut ++ ['\n'] := by
      rw [heq, List.map_append]
      rfl
    refine ⟨line.map blankOut, by rw [hmask, hblank], not_mem_map_blankOut (by decide) hfeed,
      not_mem_map_blankOut (by decide) hhash, ?_⟩
    rw [← hblank]
    refine Balance.level_of_forall fun c hc => ?_
    obtain ⟨d, -, rfl⟩ := List.mem_map.mp hc
    exact forall_of_isBlank (P := fun c => Balance.isDelimiter c = false) (by decide) (isBlank_blankOut d)

/-- Behind the end of a member the script is outside of comments and literals. -/
theorem outside_of_memberEnd {code a b : Text} {c : Char} (hmask : mask code = a ++ [c] ++ b)
    (hc : c ∈ memberEnds) :
    Outside code (a ++ [c]).length
      ∧ ∀ y, (code.take (a ++ [c]).length).getLast? = some y → isSettled y = true := by
  obtain ⟨hvisible, hsettled⟩ : isVisible c = true ∧ isSettled c = true := by
    rcases (by simpa [memberEnds] using hc : c = ';' ∨ c = '}') with rfl | rfl <;> decide
  obtain ⟨hdrop, -, hout⟩ := visible_outside (A := a) (B := b) (by rw [hmask]; simp) hvisible
  rw [List.length_append, List.length_singleton]
  refine ⟨hout, ?_⟩
  intro y hy
  -- a visible character of the mask is the one that stands there in the script
  have htake : code.take (a.length + 1) = code.take a.length ++ [c] := by
    rw [List.take_add, hdrop]
    rfl
  rw [htake, List.getLast?_concat] at hy
  cases hy
  exact hsettled

/-- A companion behind the end of a member stands in the mask as well. -/
theorem mask_insertAt_companionBlock {newline indent prop code a b : Text} {c : Char}
    (hnewline : IsNewline newline) (hindent : ∀ c ∈ indent, isIndent c = true)
    (hprop : ∀ c ∈ prop, isWord c = true) (hmask : mask code = a ++ [c] ++ b) (hc : c ∈ memberEnds) :
    mask (insertAt code (a ++ [c]).length (companionBlock newline indent prop))
      = a ++ [c] ++ (companionBlock newline indent prop ++ b) := by
  obtain ⟨hout, hlast⟩ := outside_of_memberEnd hmask hc
  have hinert : ∀ d ∈ companionBlock newline indent prop, isInert d = true := fun d hd =>
    isInert_of_isQuiet (isQuiet_companionBlock hnewline hindent hprop d hd)
  rw [mask_insertAt hout hlast hinert, hmask, List.take_left, List.drop_left, List.append_assoc]

section Placed

variable {newline : Text} (hnewline : IsNewline newline)

include hnewline

theorem placed_addAttribute (code : Text) (prop : String) :
    addAttribute newline code prop.toList = code
      ∨ ∃ b : Block, b.label = (prop, .attribute)
        ∧ Placed newline code b (addAttribute newline code prop.toList) := by
  rcases addAttribute_cases newline code prop.toList with h | ⟨offset, indent, hline, hindent, h⟩
  · exact .inl h
  rw [h]
  refine .inr ⟨⟨prop, .attribute, offset, indent, hindent⟩, rfl, ?_, ?_⟩
  · exact Block.delete_insertAt (b := ⟨prop, .attribute, offset, indent, hindent⟩) hline.1
      (fun _ => hline.lineFront)
  · obtain ⟨line, hmask, hfeed, hhash, hlevel⟩ := mask_insertAt_attributeLine hnewline hindent hline
    have hfront := StartsLine.lineFront (startsLine_mask.mpr hline)
    have halike := Balance.alike_insert_line hfront hfeed (Balance.regionMarker?_of_not_mem hhash)
      hlevel ((mask code).drop offset)
    rwa [← hmask, List.take_append_drop] at halike

theorem placed_addCompanion (code : Text) {prop : String} (hprop : ∀ c ∈ prop.toList, isWord c = true) :
    addCompanion newline code prop.toList = code
      ∨ ∃ b : Block, b.label = (prop, .companion)
        ∧ Placed newline code b (addCompanion newline code prop.toList) := by
  rcases addCompanion_cases newline code prop.toList with h | ⟨a, c, b, indent, hcut, hc, hindent, h⟩
  · exact .inl h
  rw [h]
  have hcuts : Balance.cutsMarker c = true := by
    rcases (by simpa [memberEnds] using hc : c = ';' ∨ c = '}') with rfl | rfl <;> decide
  have hlength : a.length + 1 ≤ code.length := by
    rw [← length_mask code, hcut]
    simp
  have hmask := mask_insertAt_companionBlock hnewline hindent hprop hcut hc
  rw [List.length_append, List.length_singleton, ← List.append_assoc] at hmask
  refine .inr ⟨⟨prop, .companion, a.length + 1, indent, hindent⟩, rfl, ?_, ?_⟩
  · exact Block.delete_insertAt (b := ⟨prop, .companion, a.length + 1, indent, hindent⟩) hlength (by simp)
  · rw [hmask, hcut]
    refine Balance.alike_insert_behind (d := '}') (level_companionBlock hnewline hindent hprop) hcuts
      (by decide) ?_ ?_ ?_ a b
    · unfold companionBlock
      rw [← List.append_assoc, List.getLast?_concat]
    · rcases hnewline with rfl | rfl <;> simp [companionBlock]
    · intro hhash
      cases isQuiet_companionBlock hnewline hindent hprop '#' hhash

end Placed

/-! ## A whole run -/

/-- `fixed` is `code` with blocks put into it that are some of those asked for, in their order. -/
def Repaired (newline code : Text) (asked : List (String × Part)) (fixed : Text) : Prop :=
  ∃ blocks : List Block, (blocks.map Block.label).Sublist asked
    ∧ Block.deleteAll newline blocks fixed = some code ∧ Balance.Alike (mask fixed) (mask code)

theorem Repaired.refl (newline code : Text) (asked : List (String × Part)) :
    Repaired newline code asked code :=
  ⟨[], List.nil_sublist _, rfl, .refl _⟩

theorem Placed.repaired {newline code code' : Text} {b : Block} (h : Placed newline code b code') :
    Repaired newline code [b.label] code' :=
  ⟨[b], List.Sublist.refl _, h.deleted, h.alike⟩

theorem Repaired.trans {newline code code' fixed : Text} {asked asked' : List (String × Part)}
    (h : Repaired newline code asked code') (h' : Repaired newline code' asked' fixed) :
    Repaired newline code (asked ++ asked') fixed := by
  obtain ⟨blocks, hsub, hdelete, halike⟩ := h
  obtain ⟨blocks', hsub', hdelete', halike'⟩ := h'
  refine ⟨blocks ++ blocks', ?_, Block.deleteAll_append hdelete' hdelete, halike'.trans halike⟩
  rw [List.map_append]
  exact hsub.append hsub'

/-- What a property may be asked for. -/
def partsOf (prop : String) : List (String × Part) :=
  [(prop, .attribute), (prop, .companion)]

/-- Mending one property puts in at most one block of each kind. -/
theorem repaired_mend {newline : Text} (hnewline : IsNewline newline) (code : Text) {prop : String}
    (hprop : ∀ c ∈ prop.toList, isWord c = true) :
    Repaired newline code (partsOf prop) (mend newline code prop) := by
  unfold mend
  have hattribute : Repaired newline code [(prop, .attribute)]
      (addAttribute newline code prop.toList) := by
    rcases placed_addAttribute hnewline code prop with h | ⟨b, hlabel, hplaced⟩
    · rw [h]
      exact .refl _ _ _
    · rw [← hlabel]
      exact hplaced.repaired
  have hcompanion : ∀ t : Text, Repaired newline t [(prop, .companion)]
      (addCompanion newline t prop.toList) := by
    intro t
    rcases placed_addCompanion hnewline t hprop with h | ⟨b, hlabel, hplaced⟩
    · rw [h]
      exact .refl _ _ _
    · rw [← hlabel]
      exact hplaced.repaired
  exact hattribute.trans (hcompanion _)

/-- **A run** puts in at most one block of each kind for each property. -/
theorem repaired_foldl {newline : Text} (hnewline : IsNewline newline) {props : List String}
    (hprops : ∀ prop ∈ props, ∀ c ∈ prop.toList, isWord c = true) (code : Text) :
    Repaired newline code (props.flatMap partsOf) (props.foldl (mend newline) code) := by
  induction props generalizing code with
  | nil => exact .refl _ _ _
  | cons prop props ih =>
    have hfirst := repaired_mend hnewline code (hprops prop (by simp))
    exact hfirst.trans (ih (fun p hp => hprops p (by simp [hp])) _)

/-! ## The properties that the brush rule names -/

theorem exists_issue_of_mem_subjects {issues : List Issue} {prop : String}
    (h : prop ∈ subjects issues) : ∃ i ∈ issues, i.subject = some prop := by
  rw [subjects, List.mem_eraseDups, List.mem_filterMap] at h
  obtain ⟨i, hi, hsubject⟩ := h
  exact ⟨i, List.mem_of_mem_filter hi, (Option.filter_eq_some_iff.mp hsubject).1⟩

/-- Every finding on a declaration is about the declared property. -/
theorem subject_reportsOn {masked : Text} {m : Match} {f : Finding} (h : f ∈ Brush.reportsOn masked m) :
    f.subject = some (String.ofList (m.part .name masked)) := by
  unfold Brush.reportsOn at h
  simp only at h
  split at h
  · cases h
  · rcases List.mem_append.mp h with h | h
    · rw [Option.mem_toList, Brush.attributeFinding?] at h
      split at h
      · cases h
      · cases h
        rfl
    · rw [Option.mem_toList, Brush.companionFinding?] at h
      split at h
      · cases h
        rfl
      · split at h
        · cases h
        · cases h
          rfl

/-- The brush rule names properties by words. -/
theorem isWord_of_mem_subjects {code : Text} {issues : List Issue}
    (h : Rule.brush.check (Source.ofCode code) = .ok issues) {prop : String}
    (hprop : prop ∈ subjects issues) : ∀ c ∈ prop.toList, isWord c = true := by
  obtain ⟨i, hi, hsubject⟩ := exists_issue_of_mem_subjects hprop
  obtain rfl := Except.ok.inj ((Brush.check_eq (Source.ofCode code)).symm.trans h)
  obtain ⟨f, hf, rfl⟩ := List.mem_map.mp hi
  obtain ⟨m, hm, hfm⟩ := List.mem_flatMap.mp hf
  have hname : prop = String.ofList (m.part .name (mask code)) := by
    have hsubject' := subject_reportsOn hfm
    exact Option.some.inj (hsubject.symm.trans hsubject')
  rw [hname, String.toList_ofList]
  refine (found_of_mem_findAll hm).forall_mem_part (P := fun c => isWord c = true) ?_
  intro q hq x w r hacc
  obtain rfl : q = word := List.mem_singleton.mp hq
  exact (accepts_many1.mp hacc).2

theorem fst_of_mem_partsOf {prop : String} {label : String × Part} (h : label ∈ partsOf prop) :
    label.1 = prop := by
  simp only [partsOf, List.mem_cons, List.not_mem_nil, or_false] at h
  rcases h with rfl | rfl <;> rfl

theorem nodup_subjects (issues : List Issue) : (subjects issues).Nodup := by
  have hnodup : ∀ (n : Nat) (l : List String), l.length ≤ n → l.eraseDups.Nodup := by
    intro n
    induction n with
    | zero =>
      intro l hl
      obtain rfl := List.length_eq_zero_iff.mp (Nat.le_zero.mp hl)
      exact List.nodup_nil
    | succ n ih =>
      intro l hl
      cases l with
      | nil => exact List.nodup_nil
      | cons a l =>
        rw [List.eraseDups_cons, List.nodup_cons, List.mem_eraseDups]
        refine ⟨by simp, ih _ ?_⟩
        exact (List.length_filter_le _ l).trans (Nat.le_of_succ_le_succ hl)
  exact hnodup _ _ (Nat.le_refl _)

theorem nodup_flatMap_partsOf {props : List String} (h : props.Nodup) :
    (props.flatMap partsOf).Nodup := by
  induction props with
  | nil => exact List.nodup_nil
  | cons prop props ih =>
    obtain ⟨hnot, hnodup⟩ := List.nodup_cons.mp h
    rw [List.flatMap_cons]
    refine List.nodup_append.mpr ⟨by simp [partsOf], ih hnodup, ?_⟩
    rintro label hlabel _ hlabel' rfl
    obtain ⟨other, hother, hmem⟩ := List.mem_flatMap.mp hlabel'
    rw [← fst_of_mem_partsOf hmem, fst_of_mem_partsOf hlabel] at hother
    exact hnot hother

/-- **The repair only inserts and keeps the balance.** The blocks that it puts in for the issues of
the brush rule, at most one of each kind for each property that it is asked to mend, can be taken out
again and leave the script; and the balance rule makes the same remarks on both scripts. -/
theorem deleteAll_run_and_said_balance (code : Text) :
    ∃ issues blocks before after,
      Rule.brush.check (Source.ofCode code) = .ok issues
      ∧ Block.deleteAll (lineBreak code) blocks (run issues code) = some code
      ∧ (blocks.map Block.label).Nodup
      ∧ (∀ b ∈ blocks, b.prop ∈ subjects issues)
      ∧ Rule.balance.check (Source.ofCode code) = .ok before
      ∧ Rule.balance.check (Source.ofCode (run issues code)) = .ok after
      ∧ after.map (fun i => i.said) = before.map (fun i => i.said) := by
  obtain ⟨issues, hissues⟩ : ∃ issues, Rule.brush.check (Source.ofCode code) = .ok issues :=
    ⟨_, Brush.check_eq (Source.ofCode code)⟩
  obtain ⟨blocks, hsub, hdelete, halike⟩ := repaired_foldl (isNewline_lineBreak code)
    (fun prop hprop => isWord_of_mem_subjects hissues hprop) code
  rw [← run_eq] at hdelete halike
  refine ⟨issues, blocks, _, _, hissues, hdelete, ?_, ?_, rfl, rfl, ?_⟩
  · exact (nodup_flatMap_partsOf (nodup_subjects issues)).sublist hsub
  · intro b hb
    have hmem := hsub.subset (List.mem_map_of_mem hb)
    obtain ⟨prop, hprop, hlabel⟩ := List.mem_flatMap.mp hmem
    rwa [← fst_of_mem_partsOf hlabel] at hprop
  · rw [List.map_map, List.map_map]
    exact halike.said

end Repair

end ChartLint
