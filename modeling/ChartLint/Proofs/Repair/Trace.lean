import ChartLint.Proofs.Repair.Progress

/-!
# What insertions bring

The repair works on a fresh mask after each insertion, so what was declared before has to be found again in a
longer text. The engine is one relation (`BringsNo`): a piece brings no head of a type and a name if every
such head of the text with the piece stands in the text, in front of the piece or behind it. The line of the
attribute brings no head at all, seen or blanked (`bringsNo_line`); a companion brings its own and no other
(`bringsNo_companionBlock`). `mask_addAttribute` and `mask_addCompanion` say of every script what the two
insertions are in its mask.
-/

namespace ChartLint.Repair

open Pattern Text Source Rule Lexing

/-! ## Heads of the longer text -/

/-- A piece between `a` and `b` brings no head: every one in the text with the piece is one of the text. -/
def BringsNo (type name a v b : Text) : Prop :=
  ∀ g x, a ++ (v ++ b) = g ++ x → Stands type name x →
    (g.length < a.length ∧ ∃ x', a ++ b = g ++ x' ∧ Stands type name x') ∨ ∃ k, g = a ++ (v ++ k) ∧ b = k ++ x

/-- No head of the type and the name starts in front of the offset. -/
def NoneBefore (type name t : Text) (offset : Nat) : Prop :=
  ∀ g x, t = g ++ x → Stands type name x → offset ≤ g.length

/-- Where an offset of the text comes to lie when the piece `v` is put behind `a`. -/
def moved (a v : Text) (offset : Nat) : Nat :=
  if offset < a.length then offset else offset + v.length

theorem moved_of_lt {a v : Text} {offset : Nat} (h : offset < a.length) : moved a v offset = offset :=
  if_pos h

theorem moved_of_le {a v : Text} {offset : Nat} (h : a.length ≤ offset) :
    moved a v offset = offset + v.length :=
  if_neg (Nat.not_lt.mpr h)

theorem moved_mono (a v : Text) {m n : Nat} (h : m ≤ n) : moved a v m ≤ moved a v n := by
  unfold moved
  split <;> split <;> omega

section Brings

variable {type name a v b : Text} (hbrings : BringsNo type name a v b)

include hbrings

theorem BringsNo.hasHead (h : HasHead type name (a ++ (v ++ b))) : HasHead type name (a ++ b) := by
  obtain ⟨g, x, hsplit, hstands⟩ := h
  rcases hbrings g x hsplit hstands with ⟨-, x', hsplit', hstands'⟩ | ⟨k, rfl, rfl⟩
  · exact ⟨g, x', hsplit', hstands'⟩
  · exact ⟨a ++ k, x, (List.append_assoc a k x).symm, hstands⟩

/-- What has no head in front of it has none when it has moved. -/
theorem BringsNo.noneBefore {offset : Nat} (h : NoneBefore type name (a ++ b) offset) :
    NoneBefore type name (a ++ (v ++ b)) (moved a v offset) := by
  intro g x hsplit hstands
  rcases hbrings g x hsplit hstands with ⟨hlt, x', hsplit', hstands'⟩ | ⟨k, rfl, rfl⟩
  · have hle := h g x' hsplit' hstands'
    rw [moved_of_lt (by omega)]
    exact hle
  · have hle := h (a ++ k) x (List.append_assoc a k x).symm hstands
    unfold moved
    simp only [List.length_append] at hle ⊢
    split <;> omega

end Brings

theorem first_iff_noneBefore {prop g x : Text} :
    First prop g x
      ↔ Stands "Brush".toList prop x ∧ NoneBefore "Brush".toList prop (g ++ x) g.length := by
  constructor
  · intro h
    exact ⟨h.stands, fun g' x' hsplit hstands => h.le g' x' hsplit.symm hstands⟩
  · rintro ⟨hstands, hnone⟩
    exact ⟨hstands, fun g' x' hsplit hstands' => hnone g' x' hsplit.symm hstands'⟩

/-! ## The line of the attribute -/

/-- The parts of a head have no blanks, and blanks stand between them. -/
theorem isSpaced_head {type name : Text} (htype : IsName type) (hname : IsName name) :
    isSpaced [.ink "public".toList, .space true, .ink type, .space true, .ink name, .space false,
      .ink ['{']] = true := by
  have hink : ∀ {t : Text} {parts : List Pattern.Part}, IsName t → isSpaced parts = true →
      isSpaced (.ink t :: parts) = true := by
    intro t parts ht hparts
    have hclean : ∀ c ∈ t, isBlank c = false := fun c hc => isBlank_of_isWord (ht.2 c hc)
    simpa [isSpaced, ht.1, hparts] using hclean
  have hpublic : IsName "public".toList := ⟨by decide, List.all_eq_true.mp (by decide)⟩
  have hbrace : isSpaced [.space false, .ink ['{']] = true := by decide
  exact hink hpublic (hink htype (hink hname hbrace))

/-- A head that runs over a blank piece behind complete lines runs over the place without the piece. -/
theorem IsHead.over_blank {type name g w r a v b : Text} (htype : IsName type) (hname : IsName name)
    (hhead : IsHead type name w) (ha : EndsLine a) (hv : ∀ c ∈ v, isBlank c = true)
    (h : a ++ (v ++ b) = g ++ (w ++ r)) (hlt : g.length < a.length)
    (hover : a.length < g.length + w.length) : ∃ x, a ++ b = g ++ x ∧ Stands type name x := by
  obtain ⟨k, rfl, hk⟩ := exists_of_append_eq_append h.symm hlt.le
  have hne : k ≠ [] := by
    rintro rfl
    simp at hlt
  obtain ⟨k₀, rfl⟩ := EndsLine.exists_feed ha rfl hne
  rw [List.length_append] at hover
  obtain ⟨m, rfl, hm⟩ := exists_of_append_eq_append hk.symm (by omega)
  -- the head ends with a brace, which is not blank
  have hlonger : v.length ≤ m.length := by
    by_contra hshort
    obtain ⟨n, rfl, -⟩ := exists_of_append_eq_append hm.symm (by omega)
    obtain ⟨w₀, hw₀, -⟩ := hhead.plain htype hname
    have hlast := congrArg List.getLast? hw₀
    rw [List.getLast?_append_of_ne_nil _ (by rintro rfl; simp at hover), List.getLast?_concat] at hlast
    cases hv '{' (List.mem_append_left n (List.mem_of_getLast? hlast))
  obtain ⟨m, rfl, rfl⟩ := exists_of_append_eq_append hm hlonger
  refine ⟨(k₀ ++ ['\n'] ++ m) ++ r, by simp, _, r, rfl, ?_⟩
  exact Spells.shrink (isSpaced_head htype hname) (by decide) hv hhead

/-- The line of the attribute as a mask shows it: itself, or blank. -/
def IsLine (newline v : Text) : Prop :=
  ∃ indent, (∀ c ∈ indent, isIndent c = true)
    ∧ (v = attributeLine newline indent ∨ v = (attributeLine newline indent).map blankOut)

section Line

variable {newline v : Text} (hnewline : IsNewline newline) (hv : IsLine newline v)

include hnewline hv

/-- Its characters are blanks, or those of the attribute. -/
theorem IsLine.forall_mem {P : Char → Bool} (hblank : ∀ c, isBlank c = true → P c = true)
    (hattribute : "[XmlIgnore]".toList.all P = true) : ∀ c ∈ v, P c = true := by
  obtain ⟨indent, hindent, rfl | rfl⟩ := hv
  · rw [attributeLine, List.forall_mem_append, List.forall_mem_append]
    refine ⟨⟨?_, List.all_eq_true.mp hattribute⟩, ?_⟩
    · exact forall_mem_indent hindent (hblank _ (by decide)) (hblank _ (by decide))
    · exact forall_mem_newline hnewline (hblank _ (by decide)) (hblank _ (by decide))
  · intro c hc
    obtain ⟨d, -, rfl⟩ := List.mem_map.mp hc
    exact hblank _ (isBlank_blankOut d)

theorem IsLine.not_mem {c : Char} (hc : isBlank c = false) (hattribute : c ∉ "[XmlIgnore]".toList) :
    c ∉ v := by
  intro hmem
  have hne := hv.forall_mem hnewline (P := (· != c)) ?_ ?_ c hmem
  · simp at hne
  · intro d hd
    rw [bne_iff_ne]
    rintro rfl
    rw [hd] at hc
    cases hc
  · rw [List.all_eq_true]
    intro d hd
    rw [bne_iff_ne]
    rintro rfl
    exact hattribute hd

theorem IsLine.balanced : Balanced v := by
  apply balanced_of_forall
  intro c hc
  constructor
  all_goals
    rintro rfl
    exact absurd hc (hv.not_mem hnewline (by decide) (by decide))

/-- **The line of the attribute brings no head:** none starts in it, and a head that ran over a blank line
ran over the line break in front of it before. -/
theorem bringsNo_line {type name a b : Text} (htype : IsName type) (hname : IsName name)
    (ha : EndsLine a) : BringsNo type name a v b := by
  rintro g _ hsplit ⟨w, r, rfl, hhead⟩
  rcases Nat.lt_or_ge g.length a.length with hlt | hge
  · refine .inl ⟨hlt, ?_⟩
    have hends : (g ++ w) ++ r = a ++ (v ++ b) := by rw [hsplit, List.append_assoc]
    rcases Nat.lt_or_ge a.length (g.length + w.length) with hover | hwithin
    · obtain ⟨indent, hindent, rfl | rfl⟩ := hv
      · -- no head enters a line that is seen
        have hwall : '{' ∉ indent ++ ['['] :=
          List.not_mem_append (fun hmem => by cases hindent _ hmem) (by decide)
        have hcut : a ++ (indent ++ '[' :: ("XmlIgnore]".toList ++ newline ++ b)) = g ++ (w ++ r) := by
          rw [← hsplit, attributeLine]
          simp
        have hbound := hhead.le_of_wall htype hname (by decide : isPlain '[' = false) hwall hcut hlt.le
        omega
      · refine hhead.over_blank htype hname ha ?_ hsplit hlt hover
        intro c hc
        obtain ⟨d, -, rfl⟩ := List.mem_map.mp hc
        exact isBlank_blankOut d
    · obtain ⟨u, rfl, -⟩ := exists_of_append_eq_append hends (by rwa [List.length_append])
      exact ⟨w ++ (u ++ b), by simp, w, u ++ b, rfl, hhead⟩
  · right
    have hletter : 'p' ∉ v := hv.not_mem hnewline (by decide) (by decide)
    have hle := hhead.le_of_not_mem hletter hsplit hge
    have hcut : (a ++ v) ++ b = g ++ (w ++ r) := by rw [← hsplit, List.append_assoc]
    obtain ⟨k, rfl, hk⟩ := exists_of_append_eq_append hcut (by rwa [List.length_append])
    exact ⟨k, List.append_assoc a v k, hk⟩

end Line

/-- **The attribute in the mask:** a line is put above the line of the first declaration, or nothing changes. -/
theorem mask_addAttribute {prop newline : Text} (hnewline : IsNewline newline) (hprop : IsName prop)
    (code : Text) :
    addAttribute newline code prop = code
      ∨ ∃ l f x v, mask code = l ++ (f ++ x) ∧ EndsLine l ∧ '\n' ∉ f ∧ First prop (l ++ f) x
        ∧ IsLine newline v ∧ mask (addAttribute newline code prop) = l ++ (v ++ (f ++ x)) := by
  cases hm : declaration? (mask code) prop with
  | none => exact .inl (addAttribute_of_none newline hm)
  | some m =>
    obtain ⟨g, w, r, hmask, -, hfirst, -⟩ := first_of_declaration? hm
    rcases addAttribute_eq newline hmask hprop hfirst with ⟨-, heq⟩ | ⟨-, indent, hindent, heq⟩
    · exact .inl heq
    · obtain ⟨l, f, rfl, hl, hf⟩ := exists_lines g
      rw [List.append_assoc] at hmask
      obtain ⟨v, hv, hmask'⟩ := mask_insertAt_line hnewline hindent (startsLine_of_mask hmask hl)
      refine .inr ⟨l, f, w ++ r, v, hmask, hl, hf, hfirst, ⟨indent, hindent, hv⟩, ?_⟩
      rw [heq, lineStart_eq rfl hl hf, hmask', hmask, List.take_left, List.drop_left, List.append_assoc]

/-! ## The companion -/

section Companion

variable {newline indent prop type name a b : Text} {c : Char} (hnewline : IsNewline newline)
  (hindent : ∀ c ∈ indent, isIndent c = true) (hprop : IsName prop) (htype : IsName type)
  (hname : IsName name) (hc : c ∈ memberEnds)

include hnewline hindent hprop htype hname hc

/-- The heads of a text with a companion: those of the text, and the one of the companion. -/
theorem stands_companionBlock {g x : Text}
    (hsplit : a ++ [c] ++ (companionBlock newline indent prop ++ b) = g ++ x) (hx : Stands type name x) :
    ((g.length < (a ++ [c]).length ∧ ∃ x', a ++ [c] ++ b = g ++ x' ∧ Stands type name x')
        ∨ ∃ k, g = a ++ [c] ++ (companionBlock newline indent prop ++ k) ∧ b = k ++ x)
      ∨ (g = a ++ [c] ++ companionFront newline indent ∧ type = "string".toList
        ∧ name = prop ++ Brush.companionEnding) := by
  obtain ⟨w, r, rfl, hhead⟩ := hx
  rcases Nat.lt_or_ge g.length (a ++ [c]).length with hlt | hge
  · have hcut : a ++ c :: (companionBlock newline indent prop ++ b) = g ++ (w ++ r) := by
      rw [← hsplit]
      simp
    rw [List.length_append, List.length_singleton] at hlt
    have hbound := hhead.le_of_barrier htype hname (not_isPlain_of_mem_memberEnds hc) hcut (by omega)
    have hends : (g ++ w) ++ r = a ++ [c] ++ (companionBlock newline indent prop ++ b) := by
      rw [hsplit, List.append_assoc]
    obtain ⟨u, hu, -⟩ := exists_of_append_eq_append hends (by simpa using hbound)
    refine .inl (.inl ⟨by simpa using hlt, w ++ (u ++ b), ?_, w, u ++ b, rfl, hhead⟩)
    rw [hu]
    simp
  · rcases head_companionBlock hnewline hindent hprop htype hname hhead hsplit hge with hown | hle
    · exact .inr hown
    · have hcut : (a ++ [c] ++ companionBlock newline indent prop) ++ b = g ++ (w ++ r) := by
        rw [← hsplit, List.append_assoc]
      obtain ⟨k, rfl, hk⟩ := exists_of_append_eq_append hcut (by rwa [List.length_append])
      exact .inl (.inr ⟨k, List.append_assoc _ _ _, hk⟩)

/-- **A companion brings its own head** and no other. -/
theorem bringsNo_companionBlock (hother : ¬ (type = "string".toList ∧ name = prop ++ Brush.companionEnding)) :
    BringsNo type name (a ++ [c]) (companionBlock newline indent prop) b := by
  intro g x hsplit hx
  refine (stands_companionBlock hnewline hindent hprop htype hname hc hsplit hx).resolve_right ?_
  rintro ⟨-, hown⟩
  exact hother hown

end Companion

/-- **The companion in the mask:** it is put at its spot, or there is none. -/
theorem mask_addCompanion {prop newline : Text} (hnewline : IsNewline newline) (hprop : IsName prop)
    (code : Text) :
    (companionSpot? (mask code) prop = none ∧ addCompanion newline code prop = code)
      ∨ ∃ a c b indent, mask code = a ++ [c] ++ b ∧ c ∈ memberEnds ∧ (∀ c ∈ indent, isIndent c = true)
        ∧ companionSpot? (mask code) prop = some (a ++ [c]).length
        ∧ mask (addCompanion newline code prop)
          = a ++ [c] ++ (companionBlock newline indent prop ++ b) := by
  rcases addCompanion_eq newline code prop with h | ⟨o, indent, hspot, hindent, heq⟩
  · exact .inl h
  · obtain ⟨a, c, b, hmask, rfl, hc, -⟩ := exists_cut hprop hspot
    refine .inr ⟨a, c, b, indent, hmask, hc, hindent, hspot, ?_⟩
    rw [heq, mask_insertAt_companionBlock hnewline hindent hprop.2 hmask hc]

end ChartLint.Repair
