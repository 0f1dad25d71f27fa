import ChartLint.Proofs.Repair.Joint

/-!
# A property's own attribute

The rule finds the attribute of a property on its line or on the lines above it, whoever it was meant for.
A companion that is put in between takes it out of sight. A property has an attribute of its *own* when it
has it in every part of the text that companions can cut off (`Own`); such an attribute stays in sight
through the whole repair: a line with another attribute does not hide it (`Own.line_front`,
`Own.line_behind`), and a companion falls on one of the cuts (`Own.companion_front`,
`Own.companion_behind`).
-/

namespace ChartLint.Repair

open Pattern Text Source Rule Lexing

/-- **The property between `g` and `x` has an attribute of its own:** it has one in every part of
the text that starts with the last character in front of a spot and ends at a spot. -/
def Own (spot : Nat → Prop) (g x : Text) : Prop :=
  ∀ ⦃y k u z⦄, g = y ++ k → x = u ++ z → (y = [] ∨ (k ≠ [] ∧ spot (y.length + 1))) →
    (z = [] ∨ (u ≠ [] ∧ spot (g.length + u.length))) → Marked k u

/-- An attribute of its own is an attribute. -/
theorem Own.marked {spot : Nat → Prop} {g x : Text} (h : Own spot g x) : Marked g x :=
  h rfl (List.append_nil x).symm (.inl rfl) (.inl rfl)

/-- Fewer spots cut off fewer parts. -/
theorem Own.mono {spot spot' : Nat → Prop} (hspot : ∀ o, spot' o → spot o) {g x : Text}
    (h : Own spot g x) : Own spot' g x := by
  intro y k u z hg hx hl hr
  exact h hg hx (hl.imp_right (And.imp_right (hspot _))) (hr.imp_right (And.imp_right (hspot _)))

/-- An attribute that does not stand behind the property on its line is its own if no spot stands in
front of the property, and every spot behind the end of a member. -/
theorem Marked.own {spot : Nat → Prop} {g x : Text} (h : Marked g x) (hbare : Bare x)
    (hspot : ∀ o, spot o → g.length < o)
    (hends : ∀ {u z}, x = u ++ z → spot (g.length + u.length) → ∃ u₀ c, u = u₀ ++ [c] ∧ c ∈ memberEnds) :
    Own spot g x := by
  rintro y k u z rfl rfl hl hr
  obtain rfl : y = [] := by
    refine hl.resolve_right fun ⟨hk, hl⟩ => ?_
    have hlt := hspot _ hl
    have hpos := List.length_pos_iff.mpr hk
    rw [List.length_append] at hlt
    omega
  rcases hr with rfl | ⟨-, hr⟩
  · simpa using h
  · obtain ⟨u₀, c, rfl, hc⟩ := hends rfl hr
    rw [List.append_assoc, List.singleton_append] at h hbare
    exact h.cut_right hc hbare

/-- An attribute above a property is its own if there is no spot in front of the property. -/
theorem MarkedAbove.own {spot : Nat → Prop} {g : Text} (h : MarkedAbove g)
    (hspot : ∀ o, spot o → g.length < o) (x : Text) : Own spot g x := by
  rintro y k u z rfl - hl -
  rcases hl with rfl | ⟨hk, hl⟩
  · exact h.marked u
  · have hlt := hspot _ hl
    have hpos := List.length_pos_iff.mpr hk
    rw [List.length_append] at hlt
    omega

/-- The spots of one text are those of another one, moved along with the text by a piece that is put
between `a` and the rest. -/
def Moves (spot spot' : Nat → Prop) (a v : Text) : Prop :=
  ∀ o', spot' o' → ∃ o, spot o ∧ ((o ≤ a.length ∧ o' = o) ∨ (a.length < o ∧ o' = o + v.length))

section Insert

variable {spot spot' : Nat → Prop} {a v b : Text} (hmoves : Moves spot spot' a v)

include hmoves

/-- The attribute of a property in front of a piece. -/
theorem Own.insert_front {g u : Text} (ha : a = g ++ u)
    (hlift : ∀ {k t}, Marked k (u ++ t) → (spot a.length → Marked k u) → Marked k (u ++ (v ++ t)))
    (hu : u ≠ []) (h : Own spot g (u ++ b)) : Own spot' g (u ++ (v ++ b)) := by
  rintro y k u' z hg hx hl hr
  have hlen := congrArg List.length hg
  rw [List.length_append] at hlen
  have hla : a.length = g.length + u.length := by rw [ha, List.length_append]
  have hl' : y = [] ∨ (k ≠ [] ∧ spot (y.length + 1)) := by
    refine hl.imp_right (And.imp_right fun hspot => ?_)
    obtain ⟨o, ho, ⟨-, heq⟩ | ⟨hlt, heq⟩⟩ := hmoves _ hspot
    · rwa [heq]
    · rcases hl with rfl | ⟨hk, -⟩
      · simp only [List.length_nil] at heq
        have hpos := List.length_pos_iff.mpr hu
        omega
      · have hpos := List.length_pos_iff.mpr hk
        omega
  -- the piece may stand at a spot, which then cuts the old lines there
  have hcut : spot a.length → Marked k u := by
    intro hspot
    exact h hg rfl hl' (.inr ⟨hu, by rwa [← hla]⟩)
  -- the lines end with the text, or at a spot in front of the piece or behind it
  rcases hr with rfl | ⟨hu', hspot⟩
  · rw [List.append_nil] at hx
    rw [← hx]
    exact hlift (h hg (List.append_nil _).symm hl' (.inl rfl)) hcut
  · obtain ⟨o, ho, ⟨hle, heq⟩ | ⟨hlt, heq⟩⟩ := hmoves _ hspot
    · obtain ⟨m, rfl, -⟩ := exists_of_append_eq_append hx.symm (by omega)
      exact h hg (by rw [List.append_assoc]) hl' (.inr ⟨hu', by rwa [heq]⟩)
    · rw [← List.append_assoc] at hx
      obtain ⟨m, rfl, rfl⟩ := exists_of_append_eq_append hx (by rw [List.length_append]; omega)
      rw [List.append_assoc]
      refine hlift (h hg (List.append_assoc _ _ _).symm hl' (.inr ⟨by simp [hu], ?_⟩)) hcut
      have hsame : g.length + (u ++ m).length = o := by
        simp only [List.length_append] at heq ⊢
        omega
      rwa [hsame]

/-- The attribute of a property behind a piece. -/
theorem Own.insert_behind {k x : Text}
    (hlift : ∀ {y m u}, a = y ++ m → (y = [] ∨ m ≠ []) → Marked (m ++ k) u →
      (∀ {y' c}, a = y' ++ [c] → spot a.length → Marked (c :: k) u) → Marked (m ++ (v ++ k)) u)
    (hv : v ≠ []) (h : Own spot (a ++ k) x) : Own spot' (a ++ (v ++ k)) x := by
  rintro y k' u z hg hx hl hr
  have hpos := List.length_pos_iff.mpr hv
  have hr' : z = [] ∨ (u ≠ [] ∧ spot ((a ++ k).length + u.length)) := by
    refine hr.imp_right (And.imp_right fun hspot => ?_)
    obtain ⟨o, ho, ⟨hle, heq⟩ | ⟨-, heq⟩⟩ := hmoves _ hspot
    · simp only [List.length_append] at heq
      omega
    · have hsame : (a ++ k).length + u.length = o := by
        simp only [List.length_append] at heq ⊢
        omega
      rwa [hsame]
  have hcut : ∀ {y' c}, a = y' ++ [c] → spot a.length → Marked (c :: k) u := by
    rintro y' c rfl hspot
    exact h (y := y') (by simp) hx (.inr ⟨by simp, by simpa using hspot⟩) hr'
  -- the lines start with the text, or at a spot in front of the piece or behind it
  rcases hl with rfl | ⟨hk', hspot⟩
  · rw [List.nil_append] at hg
    rw [← hg]
    exact hlift (y := []) rfl (.inl rfl) (h (y := []) rfl hx (.inl rfl) hr') hcut
  · obtain ⟨o, ho, ⟨hle, heq⟩ | ⟨hlt, heq⟩⟩ := hmoves _ hspot
    · obtain ⟨m, rfl, rfl⟩ := exists_of_append_eq_append hg.symm (by omega)
      have hm : m ≠ [] := by
        rintro rfl
        rw [List.append_nil] at hle
        omega
      refine hlift rfl (.inr hm) (h (y := y) (by simp) hx (.inr ⟨by simp [hm], by rwa [heq]⟩) hr') hcut
    · rw [← List.append_assoc] at hg
      obtain ⟨m, rfl, rfl⟩ := exists_of_append_eq_append hg (by rw [List.length_append]; omega)
      refine h (y := a ++ m) (by simp) hx (.inr ⟨hk', ?_⟩) hr'
      have hsame : (a ++ m).length + 1 = o := by
        simp only [List.length_append] at heq ⊢
        omega
      rwa [hsame]

end Insert

/-! ## The line of an attribute -/

/-- The line of the attribute has the attribute. -/
theorem occurs_attributeLine {indent : Text} (t : Text) :
    Brush.xmlIgnore.Occurs none (indent ++ "[XmlIgnore]".toList ++ t) := by
  refine occurs_xmlIgnore.mpr (.inr ⟨indent, "[XmlIgnore]".toList ++ t, by simp, ?_⟩)
  refine ⟨'[' :: "XmlIgnore".toList, ']' :: t, rfl, accepts_append.mpr ⟨['['], _, rfl, ⟨'[', rfl, rfl⟩, ?_⟩⟩
  refine accepts_append.mpr ⟨[], _, rfl, by simp [blanks, accepts_many], ?_⟩
  refine accepts_append.mpr ⟨[], _, rfl, .done _ _, accepts_append.mpr ⟨"XmlIgnore".toList, [], rfl,
    accepts_text.mpr rfl, rfl, ?_⟩⟩
  show (Option.any isWord (some 'e') != Option.any isWord (some ']')) = true
  decide

section Line

variable {newline indent : Text} (hnewline : IsNewline newline)
  (hindent : ∀ c ∈ indent, isIndent c = true)

include hnewline hindent

/-- The line of the attribute is one line, and shows the attribute. -/
theorem exists_line : ∃ line, attributeLine newline indent = line ++ ['\n'] ∧ '\n' ∉ line
    ∧ Brush.xmlIgnore.occursIn line = true := by
  have hfeed : '\n' ∉ indent := fun hmem => by cases hindent _ hmem
  rcases hnewline with rfl | rfl
  · refine ⟨indent ++ "[XmlIgnore]".toList, rfl, List.not_mem_append hfeed (by decide), ?_⟩
    rw [occursIn_iff, ← List.append_nil (indent ++ "[XmlIgnore]".toList)]
    exact occurs_attributeLine []
  · refine ⟨indent ++ "[XmlIgnore]".toList ++ ['\r'], by simp [attributeLine],
      List.not_mem_append (List.not_mem_append hfeed (by decide)) (by decide), ?_⟩
    rw [occursIn_iff]
    exact occurs_attributeLine ['\r']

/-- The line of the attribute marks the property below it. -/
theorem markedAbove_attributeLine {l f : Text} (hl : EndsLine l) (hf : '\n' ∉ f) :
    MarkedAbove (l ++ (attributeLine newline indent ++ f)) := by
  obtain ⟨line, hline, hfeed, hmark⟩ := exists_line hnewline hindent
  rw [hline, List.append_assoc, List.singleton_append]
  exact markedAbove_insert_line hl hfeed hmark hf

variable {spot spot' : Nat → Prop} {a b : Text} (ha : EndsLine a)
  (hmoves : Moves spot spot' a (attributeLine newline indent))

include ha

omit hnewline hindent in
theorem EndsLine.suffix {y m : Text} (h : a = y ++ m) : EndsLine m := by
  intro c hc
  refine ha c ?_
  rw [h, List.getLast?_append, hc]
  rfl

omit hnewline hindent in
theorem EndsLine.append {l : Text} (hl : EndsLine l) : EndsLine (a ++ l) := by
  intro c hc
  rw [List.getLast?_append] at hc
  cases hlast : l.getLast? with
  | none =>
    rw [hlast] at hc
    exact ha c hc
  | some d =>
    rw [hlast] at hc
    exact hl c (hlast.trans hc)

omit hnewline hindent in
theorem EndsLine.exists_feed {g u : Text} (h : a = g ++ u) (hu : u ≠ []) : ∃ u₀, u = u₀ ++ ['\n'] := by
  obtain ⟨u₀, c, rfl⟩ := (List.eq_nil_or_concat u).resolve_left hu
  rw [List.concat_eq_append] at h ⊢
  obtain rfl : c = '\n' := EndsLine.suffix ha h c (by simp)
  exact ⟨u₀, rfl⟩

include hmoves

omit hnewline hindent in
/-- **A new attribute line** leaves the own attribute to a property in front of it, -/
theorem Own.line_front {g u : Text} (hg : a = g ++ u) (hu : u ≠ []) (h : Own spot g (u ++ b)) :
    Own spot' g (u ++ (attributeLine newline indent ++ b)) := by
  obtain ⟨u₀, rfl⟩ := EndsLine.exists_feed ha hg hu
  refine Own.insert_front hmoves hg ?_ hu h
  rintro k t hmarked -
  rw [List.append_assoc, List.singleton_append] at hmarked ⊢
  exact marked_feed hmarked

/-- and to one behind it. -/
theorem Own.line_behind {k x : Text} (h : Own spot (a ++ k) x) :
    Own spot' (a ++ (attributeLine newline indent ++ k)) x := by
  obtain ⟨line, hline, hfeed, hmark⟩ := exists_line hnewline hindent
  refine Own.insert_behind hmoves ?_ (by rw [hline]; simp) h
  rintro y m u hy - hmarked -
  rw [hline, List.append_assoc, List.singleton_append]
  exact hmarked.insert_line (EndsLine.suffix ha hy) hfeed hmark

end Line

/-! ## The companion -/

section Companion

variable {spot spot' : Nat → Prop} {a v b : Text} {c : Char} (hc : c ∈ memberEnds)
  (hmoves : Moves spot spot' (a ++ [c]) (v ++ ['}'])) (hspot : spot (a ++ [c]).length)

include hc hmoves hspot

/-- **A new companion** leaves the own attribute to a property in front of it: it is put at a spot,
and the property has an attribute in the part that ends there. -/
theorem Own.companion_front {g u : Text} (hg : a ++ [c] = g ++ u) (hu : u ≠ [])
    (h : Own spot g (u ++ b)) : Own spot' g (u ++ (v ++ ['}'] ++ b)) := by
  refine Own.insert_front hmoves hg ?_ hu h
  rintro k t - hcut
  have hmarked := hcut hspot
  obtain ⟨u₁, d, rfl⟩ := (List.eq_nil_or_concat u).resolve_left hu
  rw [List.concat_eq_append] at hg hmarked ⊢
  rw [← List.append_assoc] at hg
  obtain ⟨-, hd⟩ := List.append_inj' hg rfl
  obtain rfl : c = d := by simpa using hd
  rw [List.append_assoc, List.singleton_append]
  exact hmarked.extend_right hc _

/-- The property behind it has one in the part that starts at the spot. -/
theorem Own.companion_behind {k x : Text} (h : Own spot (a ++ [c] ++ k) x) :
    Own spot' (a ++ [c] ++ (v ++ ['}'] ++ k)) x := by
  refine Own.insert_behind hmoves ?_ (by simp) h
  rintro y m u - - - hcut
  have hmarked := (hcut rfl hspot).extend_left hc (by decide : '}' ∈ memberEnds) (m ++ v)
  simpa using hmarked

end Companion

/-! ## Open lines -/

/-- The start of the line that a text ends in. -/
def lineStart (g : Text) : Nat :=
  g.length - (lineFront g).length

theorem lineStart_eq {g l f : Text} (hg : g = l ++ f) (hl : EndsLine l) (hf : '\n' ∉ f) :
    lineStart g = l.length := by
  rw [lineStart, hg, lineFront_of_endsLine hl, lineFront_of_not_mem hf, List.length_append]
  omega

/-- A text is complete lines and a line without its end. -/
theorem exists_lines (g : Text) : ∃ l f, g = l ++ f ∧ EndsLine l ∧ '\n' ∉ f := by
  obtain ⟨l, hl, hends⟩ := eq_append_lineFront g
  exact ⟨l, lineFront g, hl, hends, not_mem_lineFront g⟩

/-- **The line of a property is open:** its start lies outside of comments and literals, and no head
runs over it. An attribute that is put above the line is seen and breaks nothing. -/
structure Open (code g : Text) : Prop where
  outside : Outside code (lineStart g)
  clear : Clear (mask code) (lineStart g)

section Open

variable {code a v b : Text} (hmask : mask code = a ++ b)
  (hmask' : mask (insertAt code a.length v) = a ++ (v ++ b)) (hjoint : Joint a v b)

include hmask

theorem length_le_of_mask : a.length ≤ code.length := by
  rw [← length_mask code, hmask, List.length_append]
  omega

/-- A line of the mask starts where a line of the script does. -/
theorem startsLine_of_mask (ha : EndsLine a) : StartsLine code a.length := by
  rw [← startsLine_mask, hmask]
  refine ⟨by simp, ?_⟩
  rw [List.take_left]
  exact ha

include hmask' hjoint

/-- A line in front of a piece stays open, -/
theorem Open.front {g u : Text} (ha : a = g ++ u) (h : Open code g) :
    Open (insertAt code a.length v) g := by
  obtain ⟨l, f, hg, hl, hf⟩ := exists_lines g
  have hstart := lineStart_eq hg hl hf
  have hle : lineStart g ≤ a.length := by
    rw [hstart, ha, hg, List.length_append, List.length_append]
    omega
  have hline : StartsLine code (lineStart g) := by
    rw [hstart]
    exact startsLine_of_mask (b := f ++ u ++ b) (by rw [hmask, ha, hg]; simp) hl
  have hlength := length_le_of_mask hmask
  refine ⟨outside_insertAt_front hline hle hlength h.outside, ?_⟩
  rw [hmask']
  exact hjoint.clear_front hle (by rw [← hmask]; exact h.clear)

variable (hout : Outside code a.length)
  (hlast : ∀ x, (code.take a.length).getLast? = some x → isSettled x = true)
  (hv : ∀ c ∈ v, isInert c = true)

include hout hlast hv

/-- and so does one behind it. -/
theorem Open.behind {l f x : Text} (hb : b = l ++ f ++ x) (hf : '\n' ∉ f) (hends : EndsLine (a ++ l))
    (hends' : EndsLine (a ++ (v ++ l))) (h : Open code (a ++ (l ++ f))) :
    Open (insertAt code a.length v) (a ++ (v ++ (l ++ f))) := by
  have hstart : lineStart (a ++ (l ++ f)) = a.length + l.length := by
    rw [lineStart_eq (List.append_assoc a l f).symm hends hf, List.length_append]
  have hstart' : lineStart (a ++ (v ++ (l ++ f))) = a.length + l.length + v.length := by
    rw [lineStart_eq (by simp) hends' hf, List.length_append, List.length_append]
    omega
  have hbound : a.length + l.length ≤ code.length := by
    rw [← length_mask code, hmask, hb]
    simp only [List.length_append]
    omega
  obtain ⟨houtside, hclear⟩ := h
  rw [hstart] at houtside hclear
  rw [hmask] at hclear
  constructor
  · rw [hstart']
    exact outside_insertAt_behind hout hlast hv hbound houtside
  · rw [hstart', hmask']
    exact hjoint.clear_behind (by omega) hclear

end Open

/-! ## What the two blocks do to bare and open lines -/

section LineBlock

variable {newline indent code a b : Text} (hnewline : IsNewline newline)
  (hindent : ∀ c ∈ indent, isIndent c = true) (ha : EndsLine a)

include ha

theorem Bare.line_front {g u : Text} (hg : a = g ++ u) (hu : u ≠ []) (v : Text)
    (h : Bare (u ++ b)) : Bare (u ++ (v ++ b)) := by
  obtain ⟨u₀, rfl⟩ := EndsLine.exists_feed ha hg hu
  rw [List.append_assoc, List.singleton_append] at h ⊢
  exact bare_feed h

include hnewline hindent

omit ha in
theorem endsLine_attributeLine {l : Text} (hl : EndsLine l) :
    EndsLine (a ++ (attributeLine newline indent ++ l)) := by
  obtain ⟨line, hline, -, -⟩ := exists_line hnewline hindent
  have hfeed : EndsLine (a ++ (line ++ ['\n'])) := by
    intro c hc
    rw [← List.append_assoc, List.getLast?_concat] at hc
    exact (Option.some.inj hc).symm
  rw [hline, ← List.append_assoc]
  exact EndsLine.append hfeed hl

omit ha in
/-- The line of an attribute stops no initial value. -/
theorem isStop_attributeLine : ∀ c ∈ attributeLine newline indent, isStop c = false := by
  intro c hc
  rw [attributeLine, List.mem_append, List.mem_append] at hc
  rcases hc with (hc | hc) | hc
  · have hor : c = ' ' ∨ c = '\t' := by simpa [isIndent] using hindent c hc
    rcases hor with rfl | rfl <;> rfl
  · simpa using List.all_eq_true.mp
      (by decide : "[XmlIgnore]".toList.all (fun c => !isStop c) = true) c hc
  · simpa using forall_mem_newline hnewline (P := fun c => !isStop c) (by decide) (by decide) c hc

end LineBlock

section CompanionBlock

variable {newline indent prop code a b : Text} {c : Char} (hnewline : IsNewline newline)
  (hindent : ∀ c ∈ indent, isIndent c = true) (hc : c ∈ memberEnds)

/-- A companion starts with a line break and ends with a line of its own. -/
theorem exists_companionBlock (newline indent prop : Text) :
    (∃ v, companionBlock newline indent prop = newline ++ v)
    ∧ ∃ v, companionBlock newline indent prop = v ++ newline ++ (indent ++ ['}']) := by
  constructor
  · unfold companionBlock
    simp only [List.append_assoc]
    exact ⟨_, rfl⟩
  · obtain ⟨v, hv⟩ : ∃ v, companionBlock newline indent prop = v ++ (newline ++ indent ++ ['}']) := ⟨_, rfl⟩
    exact ⟨v, by rw [hv]; simp⟩

include hnewline

theorem IsNewline.exists_feed : ∃ n, newline = n ++ ['\n'] := by
  rcases hnewline with rfl | rfl
  · exact ⟨[], rfl⟩
  · exact ⟨['\r'], rfl⟩

include hc

/-- A bare line stays bare: a line break takes the place of what stood behind the brace. -/
theorem Bare.companion_front {g u : Text} (hg : a ++ [c] = g ++ u) (hu : u ≠ [])
    (h : Bare (u ++ b)) : Bare (u ++ (companionBlock newline indent prop ++ b)) := by
  obtain ⟨u₁, d, rfl⟩ := (List.eq_nil_or_concat u).resolve_left hu
  rw [List.concat_eq_append] at hg h ⊢
  rw [← List.append_assoc] at hg
  obtain ⟨-, hd⟩ := List.append_inj' hg rfl
  obtain rfl : c = d := by simpa using hd
  rw [List.append_assoc, List.singleton_append] at h ⊢
  refine h.cut_right hc ?_
  obtain ⟨⟨v, hv⟩, -⟩ := exists_companionBlock newline indent prop
  rw [hv, Bare, ← occursIn_iff]
  rcases hnewline with rfl | rfl
  · have hback : lineBack (['\n'] ++ v ++ b) = [] := lineBack_append_feed [] (v ++ b)
    rw [hback]
    decide
  · have hback : lineBack (['\r', '\n'] ++ v ++ b) = ['\r'] := lineBack_append_feed ['\r'] (v ++ b)
    rw [hback]
    decide

include hindent

omit hc in
/-- **An open line stays open** behind a companion; if the companion is put on the line itself, its
last brace stands on the new one. -/
theorem Open.companion_behind {k x : Text} (hmask : mask code = a ++ [c] ++ (k ++ x))
    (hmask' : mask (insertAt code (a ++ [c]).length (companionBlock newline indent prop))
      = a ++ [c] ++ (companionBlock newline indent prop ++ (k ++ x)))
    (hjoint : Joint (a ++ [c]) (companionBlock newline indent prop) (k ++ x))
    (hout : Outside code (a ++ [c]).length)
    (hlast : ∀ x, (code.take (a ++ [c]).length).getLast? = some x → isSettled x = true)
    (hinert : ∀ d ∈ companionBlock newline indent prop, isInert d = true)
    (h : Open code (a ++ [c] ++ k)) :
    Open (insertAt code (a ++ [c]).length (companionBlock newline indent prop))
      (a ++ [c] ++ (companionBlock newline indent prop ++ k)) := by
  obtain ⟨l, f, rfl, hl, hf⟩ := exists_lines k
  have hends : l ≠ [] → ∀ y, EndsLine (y ++ l) := by
    intro hne y d hd
    rw [List.getLast?_append_of_ne_nil _ hne] at hd
    exact hl d hd
  by_cases hne : l = []
  · subst hne
    rw [List.nil_append] at *
    -- the line now starts with the last line of the companion
    obtain ⟨n, hn⟩ := hnewline.exists_feed
    obtain ⟨-, v, hv⟩ := exists_companionBlock newline indent prop
    have hfeed : '\n' ∉ indent ++ ['}'] ++ f :=
      List.not_mem_append (List.not_mem_append (fun hmem => by cases hindent _ hmem) (by decide)) hf
    have hstart : lineStart (a ++ [c] ++ (companionBlock newline indent prop ++ f))
        = (a ++ [c]).length + (v ++ newline).length := by
      rw [← List.length_append]
      refine lineStart_eq (f := indent ++ ['}'] ++ f) ?_ ?_ hfeed
      · rw [hv]
        simp
      · intro d hd
        rw [hn, ← List.append_assoc, ← List.append_assoc, List.getLast?_concat] at hd
        simpa using hd.symm
    constructor
    · rw [hstart, hv]
      rw [hv] at hinert
      refine outside_insertAt_within hout hlast (length_le_of_mask hmask) ?_
      intro d hd
      exact hinert d (List.mem_append_left _ hd)
    · rw [hstart, hmask', hv]
      intro type name g w r htype hname hhead hsplit hlt
      rw [← List.length_append] at hlt
      have hwall : '{' ∉ indent ++ ['}'] :=
        List.not_mem_append (fun hmem => by cases hindent _ hmem) (by decide)
      have hcut : (a ++ [c] ++ (v ++ newline)) ++ (indent ++ '}' :: (f ++ x)) = g ++ (w ++ r) := by
        rw [← hsplit]
        simp
      have hbound := hhead.le_of_wall (isName_of_mem_headTypes htype) hname
        (by decide : isPlain '}' = false) hwall hcut (Nat.le_of_lt hlt)
      rwa [List.length_append] at hbound
  · refine Open.behind hmask hmask' hjoint hout hlast hinert (x := x) (by simp) hf (hends hne _) ?_ h
    rw [← List.append_assoc]
    exact hends hne _

end CompanionBlock

end ChartLint.Repair
