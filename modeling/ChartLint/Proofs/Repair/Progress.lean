import ChartLint.Proofs.Repair.Own

/-!
# What the repair leaves

The repair is run once over the properties that the brush rule names, in the order of the script. Here it is
shown what the rule finds afterwards. The invariant of the run is `Progress`: the companions of the
properties that are not yet due are in place or will never be, and every property has an attribute of its
own or stands on an open line and is still due. One insertion keeps it (`Progress.insert`), so mending one
property takes one name off the list (`Progress.mend`) and a run all of them (`progress_foldl`).
-/

namespace ChartLint.Repair

open Pattern Text Source Rule Lexing

/-! ## The invariant -/

/-- The name of a property that needs an attribute and a companion. -/
def IsProperty (prop : Text) : Prop :=
  IsName prop ∧ Brush.companionEnding.isSuffixOf prop = false

/-- The offsets at which the companions of properties are to be put. -/
def Spot (props : List Text) (masked : Text) (offset : Nat) : Prop :=
  ∃ prop ∈ props, companionSpot? masked prop = some offset

/-- A property that can be given its attribute: it is the first one of its name, no attribute stands behind
it on its line, where a companion would cut it off, and the line is open. -/
structure Pending (code prop g x : Text) : Prop where
  first : First prop g x
  bare : Bare x
  line : Open code g

/-- **How far the repair has come** from the masked text that it started with: the properties whose
companions, and those whose attributes, are still due. -/
structure Progress (origin : Text) (companions attributes : List Text) (code : Text) : Prop where
  properties : ∀ p ∈ companions, IsProperty p
  unclosed : ∀ {q}, IsProperty q → Unclosed (mask code) q → Unclosed origin q
  settled : ∀ {q}, IsProperty q → q ∉ companions → companionSpot? (mask code) q = none
  ordered : companions.Pairwise (fun p q => ∀ {g x o}, mask code = g ++ x → First p g x →
    companionSpot? (mask code) q = some o → g.length < o)
  marked : ∀ {q g x}, IsProperty q → mask code = g ++ x → Stands "Brush".toList q x →
    Own (Spot companions (mask code)) g x ∨ (q ∈ attributes ∧ Pending code q g x)

section Insert

variable {origin : Text} {props props' todo todo' : List Text} {code code' a v b : Text}

/-- **One insertion** moves the spots along with the text, and with them everything that the invariant
says. -/
theorem Progress.insert (h : Progress origin props todo code) (hsub : props'.Sublist props)
    (hmask : mask code = a ++ b) (hmask' : mask code' = a ++ (v ++ b)) (hjoint : Joint a v b)
    (hspots : ∀ {q o'}, IsProperty q → companionSpot? (mask code') q = some o' →
      (q ∈ props → q ∈ props') ∧ ∃ o, companionSpot? (mask code) q = some o
        ∧ ((o ≤ a.length ∧ o' = o) ∨ (a.length < o ∧ o' = o + v.length)))
    (hfront : ∀ {q g u}, IsProperty q → a = g ++ u → u ≠ [] →
      Stands "Brush".toList q (u ++ (v ++ b)) →
      Own (Spot props (mask code)) g (u ++ b) ∨ (q ∈ todo ∧ Pending code q g (u ++ b)) →
      Own (Spot props' (mask code')) g (u ++ (v ++ b))
        ∨ (q ∈ todo' ∧ Pending code' q g (u ++ (v ++ b))))
    (hbehind : ∀ {q k x}, IsProperty q → b = k ++ x → Stands "Brush".toList q x →
      Own (Spot props (mask code)) (a ++ k) x ∨ (q ∈ todo ∧ Pending code q (a ++ k) x) →
      Own (Spot props' (mask code')) (a ++ (v ++ k)) x
        ∨ (q ∈ todo' ∧ Pending code' q (a ++ (v ++ k)) x)) :
    Progress origin props' todo' code' := by
  refine ⟨fun p hp => h.properties p (hsub.subset hp), ?_, ?_, ?_, ?_⟩
  · intro q hq hunclosed
    rw [hmask'] at hunclosed
    refine h.unclosed hq ?_
    rw [hmask]
    exact hjoint.unclosed hq.1 hunclosed
  · intro q hq hnot
    cases hspot : companionSpot? (mask code') q with
    | none => rfl
    | some o' =>
      obtain ⟨hmem, o, ho, -⟩ := hspots hq hspot
      rw [h.settled hq (fun hin => hnot (hmem hin))] at ho
      cases ho
  · refine (h.ordered.sublist hsub).imp_of_mem ?_
    intro p q hp hq horder g x o' hsplit hfirst hspot
    have hpname := (h.properties p (hsub.subset hp)).1
    -- the spot moves with the text behind the piece, and the declaration does too
    obtain ⟨-, o, ho, hmoved⟩ := hspots (h.properties q (hsub.subset hq)) hspot
    obtain ⟨w, r, rfl, hhead⟩ := hfirst.stands
    rw [hmask'] at hsplit
    rcases hjoint.head_old hpname hhead hsplit with ⟨u, ha, rfl⟩ | ⟨k, rfl, hb⟩
    · have hstands : Stands "Brush".toList p ((w ++ u) ++ b) := ⟨w, u ++ b, by simp, hhead⟩
      have hold := hjoint.first_old_front hpname (by rw [ha]) hstands (by simpa using hfirst)
      have hlt := horder (by rw [hmask, ha]; simp) hold ho
      omega
    · have hold := hjoint.first_old_behind hpname hb hfirst
      have hlt := horder (by rw [hmask, hb]; simp) hold ho
      simp only [List.length_append] at hlt ⊢
      omega
  · intro q g x hq hsplit hstands
    obtain ⟨w, r, rfl, hhead⟩ := hstands
    rw [hmask'] at hsplit
    -- the declaration stood in the old text, in front of the piece or behind it
    rcases hjoint.head_old hq.1 hhead hsplit with ⟨u, ha, rfl⟩ | ⟨k, rfl, hb⟩
    · have hold : mask code = g ++ ((w ++ u) ++ b) := by rw [hmask, ha]; simp
      have hne : w ++ u ≠ [] := by
        intro hnil
        have hpos := hhead.length_pos
        have hlen := congrArg List.length hnil
        rw [List.length_append, List.length_nil] at hlen
        omega
      have hmarked := h.marked hq hold ⟨w, u ++ b, by simp, hhead⟩
      have hnew := hfront hq (by rw [ha]) hne ⟨w, u ++ (v ++ b), by simp, hhead⟩ hmarked
      simpa using hnew
    · have hold : mask code = (a ++ k) ++ (w ++ r) := by rw [hmask, hb]; simp
      exact hbehind hq hb ⟨w, r, rfl, hhead⟩ (h.marked hq hold ⟨w, r, rfl, hhead⟩)

end Insert

/-! ## The attribute of one property -/

/-- The line of a declaration starts in the script where it starts in the mask. -/
theorem lineStartAt_of_mask {code g x : Text} (hmask : mask code = g ++ x) :
    lineStartAt code g.length = lineStart g := by
  obtain ⟨l, f, rfl, hl, hf⟩ := exists_lines g
  have hlength : (l ++ f).length ≤ code.length := length_le_of_mask hmask
  have hline : StartsLine code l.length := startsLine_of_mask (by rw [hmask, List.append_assoc]) hl
  -- between the start of the line and the declaration there is no line feed
  obtain ⟨f', hf', hsplit⟩ : ∃ f', '\n' ∉ f' ∧ code.take (l ++ f).length = code.take l.length ++ f' := by
    refine ⟨(code.drop l.length).take f.length, ?_, by rw [List.length_append, List.take_add]⟩
    have hcount := lineOf_mask code l.length
    have hcount' := lineOf_mask code (l ++ f).length
    have htake : (mask code).take l.length = l := by rw [hmask, List.append_assoc, List.take_left]
    have htake' : (mask code).take (l ++ f).length = l ++ f := by rw [hmask, List.take_left]
    rw [lineOf, lineOf, htake] at hcount
    rw [lineOf, lineOf, htake', List.count_append, List.count_eq_zero_of_not_mem hf, List.length_append,
      List.take_add, List.count_append] at hcount'
    exact List.count_eq_zero.mp (by omega)
  have hstart := lineStartAt_append (code.take (l ++ f).length) (code.drop (l ++ f).length)
  have hlen : (code.take (l ++ f).length).length = (l ++ f).length := List.length_take_of_le hlength
  have hlenl : (code.take l.length).length = l.length := List.length_take_of_le hline.1
  rw [List.take_append_drop, hlen] at hstart
  rw [hstart, lineStart_eq rfl hl hf, hsplit, lineFront_of_endsLine hline.2,
    lineFront_of_not_mem hf']
  have hlens : (l ++ f).length = l.length + f'.length := by
    rw [← hlen, hsplit, List.length_append, hlenl]
  omega

/-- **The attribute** is put at the start of the line of a property that lacks it. -/
theorem addAttribute_eq {code prop g x : Text} (newline : Text) (hmask : mask code = g ++ x)
    (hprop : IsName prop) (hfirst : First prop g x) :
    (Marked g x ∧ addAttribute newline code prop = code)
      ∨ (¬ Marked g x ∧ ∃ indent, (∀ c ∈ indent, isIndent c = true)
        ∧ addAttribute newline code prop
          = insertAt code (lineStart g) (attributeLine newline indent)) := by
  obtain ⟨w, r, rfl, hhead⟩ := hfirst.stands
  obtain ⟨m, hm, hstart, -⟩ := hfirst.declaration? hprop hhead
  have hmarked : Marked g (w ++ r)
      ↔ Brush.isIgnored? (lines (mask code)) (lineOf code m.start) = .ok true := by
    rw [hstart, ← lineOf_mask, hmask]
    exact Iff.rfl
  rw [← hmask] at hm
  rw [addAttribute_def]
  simp only [hm]
  split
  · next hignored => exact .inl ⟨hmarked.mpr hignored, rfl⟩
  · next hignored =>
    refine .inr ⟨fun h => hignored (hmarked.mp h), _, isIndent_indentOf code m.start, ?_⟩
    rw [hstart, lineStartAt_of_mask hmask]
    rfl

theorem addAttribute_of_none {code prop : Text} (newline : Text)
    (h : declaration? (mask code) prop = none) : addAttribute newline code prop = code := by
  rw [addAttribute_def]
  simp only [h]

/-- A companion is put behind the declaration. -/
theorem First.lt_companionSpot? {prop g x : Text} (h : First prop g x) (hprop : IsName prop) {o : Nat}
    (ho : companionSpot? (g ++ x) prop = some o) : g.length < o := by
  obtain ⟨-, g', w, body, z, value, heq, hfirst, -, rfl⟩ := (companionSpot?_eq_some hprop).mp ho
  obtain ⟨rfl, -⟩ := h.unique hfirst heq
  simp only [List.length_append]
  omega

section Attribute

variable {origin newline prop : Text} {props todo : List Text} {code : Text}
  (hnewline : IsNewline newline)

/-- A property whose first declaration has an attribute of its own is done. -/
theorem Progress.attribute_done (h : Progress origin props (prop :: todo) code)
    (hown : ∀ {g x}, mask code = g ++ x → First prop g x → Bare x →
      Own (Spot props (mask code)) g x) :
    Progress origin props todo code := by
  refine ⟨h.properties, h.unclosed, h.settled, h.ordered, ?_⟩
  intro q g x hq hsplit hstands
  rcases h.marked hq hsplit hstands with hmarked | ⟨hmem, hpending⟩
  · exact .inl hmarked
  · rcases List.mem_cons.mp hmem with rfl | hmem
    · exact .inl (hown hsplit hpending.first hpending.bare)
    · exact .inr ⟨hmem, hpending⟩

/-- All spots lie behind the declaration of the property that is next. -/
theorem Progress.lt_spot (h : Progress origin (prop :: props) todo code) {g x : Text}
    (hmask : mask code = g ++ x) (hfirst : First prop g x) {o : Nat}
    (ho : Spot (prop :: props) (mask code) o) : g.length < o := by
  obtain ⟨q, hq, hspot⟩ := ho
  rcases List.mem_cons.mp hq with rfl | hq
  · rw [hmask] at hspot
    exact hfirst.lt_companionSpot? (h.properties q List.mem_cons_self).1 hspot
  · exact List.rel_of_pairwise_cons h.ordered hq hmask hfirst hspot

/-- A spot lies behind the end of a member. -/
theorem Progress.memberEnd_of_spot (h : Progress origin props todo code) {g u z : Text}
    (hmask : mask code = g ++ (u ++ z)) (hlt : g.length < g.length + u.length)
    (ho : Spot props (mask code) (g.length + u.length)) : ∃ u₀ c, u = u₀ ++ [c] ∧ c ∈ memberEnds := by
  obtain ⟨q, hq, hspot⟩ := ho
  obtain ⟨a, c, b, hcut, hlen, hc, -⟩ := exists_cut (h.properties q hq).1 hspot
  have hsplit : a ++ [c] ++ b = (g ++ u) ++ z := by rw [← hcut, hmask, List.append_assoc]
  obtain ⟨hfront, -⟩ := List.append_inj hsplit (by rw [← hlen, List.length_append])
  obtain ⟨u₀, d, rfl⟩ := (List.eq_nil_or_concat u).resolve_left (by rintro rfl; simp at hlt)
  rw [List.concat_eq_append, ← List.append_assoc] at hfront
  obtain ⟨-, hcd⟩ := List.append_inj' hfront rfl
  obtain rfl : c = d := by simpa using hcd
  exact ⟨u₀, c, List.concat_eq_append, hc⟩

include hnewline

/-- A spot in the text with the line of the attribute is a spot of the text. -/
theorem companionSpot?_attributeLine {indent l b q : Text} (hindent : ∀ c ∈ indent, isIndent c = true)
    (hl : EndsLine l) (hjoint : Joint l (attributeLine newline indent) b) (hq : IsName q) {o' : Nat}
    (h : companionSpot? (l ++ (attributeLine newline indent ++ b)) q = some o') :
    ∃ o, companionSpot? (l ++ b) q = some o
      ∧ ((o ≤ l.length ∧ o' = o) ∨ (l.length < o ∧ o' = o + (attributeLine newline indent).length)) := by
  refine hjoint.companionSpot? hq ?_ h
  rintro g w body z hcut - -
  have hz : z ≠ [] := by
    rintro rfl
    have hends := EndsLine.suffix hl (y := g ++ w ++ body) (m := ['}']) (by rw [hcut]; simp)
    cases hends '}' rfl
  obtain ⟨z₀, rfl⟩ := EndsLine.exists_feed hl (g := g ++ w ++ body ++ ['}']) (by rw [hcut]; simp) hz
  exact .inl ⟨z₀, rfl, isStop_attributeLine hnewline hindent⟩

/-- The attribute is put above its property. -/
theorem Progress.insert_attribute {indent l f x : Text} (hindent : ∀ c ∈ indent, isIndent c = true)
    (hl : EndsLine l) (hf : '\n' ∉ f) (hmask : mask code = l ++ (f ++ x))
    (hpending : Pending code prop (l ++ f) x)
    (h : Progress origin (prop :: props) (prop :: todo) code) :
    Progress origin (prop :: props) todo (insertAt code l.length (attributeLine newline indent)) := by
  have hprop := h.properties prop List.mem_cons_self
  have hfirst := hpending.first
  have hstart : lineStart (l ++ f) = l.length := lineStart_eq rfl hl hf
  obtain ⟨hout, hclear⟩ := hpending.line
  rw [hstart] at hout hclear
  rw [hmask] at hclear
  have hinert : ∀ c ∈ attributeLine newline indent, isInert c = true := fun c hc =>
    isInert_of_isQuiet (isQuiet_attributeLine hnewline hindent c hc)
  have hlast : ∀ y, (code.take l.length).getLast? = some y → isSettled y = true := by
    intro y hy
    rw [(startsLine_of_mask hmask hl).2 y hy]
    decide
  have hjoint := joint_attributeLine (b := f ++ x) hnewline hindent hclear
  have hmask' : mask (insertAt code l.length (attributeLine newline indent))
      = l ++ (attributeLine newline indent ++ (f ++ x)) := by
    rw [mask_insertAt hout hlast hinert, hmask, List.take_left, List.drop_left, List.append_assoc]
  have hmoves : Moves (Spot (prop :: props) (l ++ (f ++ x)))
      (Spot (prop :: props) (l ++ (attributeLine newline indent ++ (f ++ x)))) l
      (attributeLine newline indent) := by
    rintro o' ⟨q, hq, hspot⟩
    obtain ⟨o, ho, hmoved⟩ :=
      companionSpot?_attributeLine hnewline hindent hl hjoint (h.properties q hq).1 hspot
    exact ⟨o, ⟨q, hq, ho⟩, hmoved⟩
  refine h.insert (List.Sublist.refl _) hmask hmask' hjoint ?_ ?_ ?_
  · intro q o' hq hspot
    rw [hmask'] at hspot
    rw [hmask]
    exact ⟨id, companionSpot?_attributeLine hnewline hindent hl hjoint hq.1 hspot⟩
  · rw [hmask, hmask']
    rintro q g u hq hcut hu hstands (hown | ⟨hmem, hold⟩)
    · exact .inl (Own.line_front hl hmoves hcut hu hown)
    · rcases List.mem_cons.mp hmem with rfl | hmem
      · -- the property itself does not stand in front of its line
        have hsplit : g ++ (u ++ (f ++ x)) = (l ++ f) ++ x := by rw [hcut]; simp
        obtain ⟨rfl, -⟩ := hold.first.unique hfirst hsplit
        have hpos := List.length_pos_iff.mpr hu
        have hlen := congrArg List.length hcut
        simp only [List.length_append] at hlen
        omega
      · exact .inr ⟨hmem, hjoint.first_new_front hq.1 hcut hstands hold.first,
          Bare.line_front hl hcut hu _ hold.bare, Open.front hmask hmask' hjoint hcut hold.line⟩
  · rw [hmask, hmask']
    rintro q k x' hq hcut hstands (hown | ⟨hmem, hold⟩)
    · exact .inl (Own.line_behind hnewline hindent hl hmoves hown)
    · rcases List.mem_cons.mp hmem with rfl | hmem
      · -- the property itself now has the attribute above it
        have hsplit : (l ++ k) ++ x' = (l ++ f) ++ x := by
          rw [List.append_assoc, ← hcut, List.append_assoc]
        obtain ⟨hk, rfl⟩ := hold.first.unique hfirst hsplit
        obtain rfl := List.append_cancel_left hk
        refine .inl ((markedAbove_attributeLine hnewline hindent hl hf).own ?_ x')
        intro o' ho'
        obtain ⟨o, ho, hmoved⟩ := hmoves o' ho'
        rw [← hmask] at ho
        have hlt := h.lt_spot (by rw [hmask, List.append_assoc]) hfirst ho
        simp only [List.length_append] at hlt hmoved ⊢
        omega
      · obtain ⟨l', f', rfl, hl', hf'⟩ := exists_lines k
        have hends : EndsLine (l ++ l') := EndsLine.append hl hl'
        exact .inr ⟨hmem, hjoint.first_new_behind hq.1 hcut hold.first,
          hold.bare, Open.behind hmask hmask' hjoint hout hlast hinert hcut hf' hends
            (endsLine_attributeLine hnewline hindent hl') hold.line⟩

/-- **The attribute of one property is done.** -/
theorem Progress.addAttribute (h : Progress origin (prop :: props) (prop :: todo) code) :
    Progress origin (prop :: props) todo (addAttribute newline code prop) := by
  have hprop := h.properties prop List.mem_cons_self
  cases hm : declaration? (mask code) prop with
  | none =>
    rw [addAttribute_of_none newline hm]
    refine h.attribute_done fun {g x} hmask hfirst _ => ?_
    obtain ⟨m, hm'⟩ := exists_declaration? (g := g) hfirst.stands
    rw [← hmask, hm] at hm'
    cases hm'
  | some m =>
    obtain ⟨g, w, r, hmask, -, hfirst, -⟩ := first_of_declaration? hm
    rcases addAttribute_eq newline hmask hprop.1 hfirst with ⟨hmarked, heq⟩ | ⟨hunmarked, indent, hindent, heq⟩
    · rw [heq]
      refine h.attribute_done fun {g' x'} hmask' hfirst' hbare => ?_
      obtain ⟨rfl, rfl⟩ := hfirst.unique hfirst' (hmask.symm.trans hmask')
      refine hmarked.own hbare (fun o ho => h.lt_spot hmask hfirst ho) fun {u z} hcut ho => ?_
      exact h.memberEnd_of_spot (hmask.trans (by rw [hcut])) (h.lt_spot hmask hfirst ho) ho
    · rcases h.marked hprop hmask hfirst.stands with hown | ⟨-, hpending⟩
      · exact absurd hown.marked hunmarked
      · obtain ⟨l, f, rfl, hl, hf⟩ := exists_lines g
        rw [heq, lineStart_eq rfl hl hf]
        exact h.insert_attribute hnewline hindent hl hf (by rw [hmask, List.append_assoc]) hpending

end Attribute

/-! ## The companion of one property -/

/-- **One brace closes one property.** -/
theorem eq_of_closing {prop q g w body g' w' body' b : Text} (hprop : IsName prop) (hq : IsName q)
    (hhead : IsHead "Brush".toList prop w) (hhead' : IsHead "Brush".toList q w')
    (heq : g ++ w ++ body = g' ++ w' ++ body')
    (hclosing : closing? (body ++ '}' :: b) = some body.length)
    (hclosing' : closing? (body' ++ '}' :: b) = some body'.length) : prop = q := by
  -- an opening brace between the other one and its end would be closed by the same brace
  have hlt : ∀ {q g w body g' w' body' : Text}, IsName q → IsHead "Brush".toList q w' →
      g ++ w ++ body = g' ++ w' ++ body' → closing? (body ++ '}' :: b) = some body.length →
      closing? (body' ++ '}' :: b) = some body'.length → (g' ++ w').length ≤ (g ++ w).length := by
    intro q g w body g' w' body' hq hhead' heq hclosing hclosing'
    by_contra hgt
    obtain ⟨k, hk, rfl⟩ := exists_of_append_eq_append heq (by omega)
    have hne : k ≠ [] := by
      rintro rfl
      rw [hk, List.append_nil] at hgt
      exact hgt (Nat.le_refl _)
    obtain ⟨w₀, rfl, -⟩ := hhead'.plain isName_brush hq
    obtain ⟨k₀, d, rfl⟩ := (List.eq_nil_or_concat k).resolve_left hne
    rw [List.concat_eq_append, ← List.append_assoc, ← List.append_assoc] at hk
    obtain ⟨-, hd⟩ := List.append_inj' hk rfl
    obtain rfl : '{' = d := by simpa using hd
    rw [List.concat_eq_append, List.append_assoc, List.append_assoc] at hclosing
    rcases closing?_nested hclosing hclosing' with hlt | hlt
    · simp only [List.length_append, List.length_cons, List.length_nil] at hlt
      omega
    · simp only [List.length_append, List.length_cons, List.length_nil] at hlt
      omega
  have hle := hlt hq hhead' heq hclosing hclosing'
  have hle' := hlt hprop hhead heq.symm hclosing' hclosing
  have hopeners : g ++ w = g' ++ w' := (List.append_inj heq (by omega)).1
  exact (IsHead.unique isName_brush hprop isName_brush hq hhead hhead' hopeners).2.2.2

section Companion

variable {origin newline prop : Text} {props todo : List Text} {code : Text}
  (hnewline : IsNewline newline)

/-- A property that has no spot for its companion is done. -/
theorem Progress.companion_done (h : Progress origin (prop :: props) todo code)
    (hnone : companionSpot? (mask code) prop = none) : Progress origin props todo code := by
  refine ⟨fun p hp => h.properties p (List.mem_cons_of_mem prop hp), h.unclosed, ?_, h.ordered.of_cons, ?_⟩
  · intro q hq hnot
    by_cases heq : q = prop
    · rw [heq, hnone]
    · exact h.settled hq fun hmem => hnot ((List.mem_cons.mp hmem).resolve_left heq)
  · intro q g x hq hsplit hstands
    refine (h.marked hq hsplit hstands).imp_left (Own.mono ?_)
    rintro o ⟨p, hp, hspot⟩
    exact ⟨p, List.mem_cons_of_mem prop hp, hspot⟩

include hnewline

/-- A spot in the text with a companion is a spot of the text, and not the one of its property. -/
theorem companionSpot?_companionBlock {indent a b q : Text} {c : Char}
    (hindent : ∀ c ∈ indent, isIndent c = true) (hprop : IsName prop) (hc : c ∈ memberEnds)
    (hbrace : c = '}' → ∃ g w body, a = g ++ w ++ body ∧ IsHead "Brush".toList prop w
      ∧ closing? (body ++ '}' :: b) = some body.length)
    (hjoint : Joint (a ++ [c]) (companionBlock newline indent prop) b) (hq : IsName q) {o' : Nat}
    (h : companionSpot? (a ++ [c] ++ (companionBlock newline indent prop ++ b)) q = some o') :
    q ≠ prop ∧ ∃ o, companionSpot? (a ++ [c] ++ b) q = some o
      ∧ ((o ≤ (a ++ [c]).length ∧ o' = o)
        ∨ ((a ++ [c]).length < o ∧ o' = o + (companionBlock newline indent prop).length)) := by
  have hne : q ≠ prop := by
    rintro rfl
    exact ((companionSpot?_eq_some hprop).mp h).1 (hasHead_companionBlock hnewline hindent _ b)
  refine ⟨hne, hjoint.companionSpot? hq ?_ h⟩
  intro g w body z hcut hhead hclosing
  rcases List.eq_nil_or_concat z with rfl | ⟨z₀, d, rfl⟩
  · -- the companion stands right behind a brace, which closes only its own property
    have hends : a ++ [c] = (g ++ w ++ body) ++ ['}'] := by rw [hcut]; simp
    obtain ⟨ha, hcd⟩ := List.append_inj' hends rfl
    obtain ⟨g₀, w₀, body₀, ha₀, hhead₀, hclosing₀⟩ := hbrace (by simpa using hcd)
    exact absurd (eq_of_closing hprop hq hhead₀ hhead (ha₀.symm.trans ha) hclosing₀ hclosing).symm hne
  · have hends : a ++ [c] = (g ++ (w ++ (body ++ '}' :: z₀))) ++ [d] := by rw [hcut]; simp
    obtain ⟨-, hcd⟩ := List.append_inj' hends rfl
    obtain rfl : c = d := by simpa using hcd
    exact .inr ⟨z₀, c, List.concat_eq_append, hc⟩

/-- The companion is put at its spot. -/
theorem Progress.insert_companion {indent : Text} (hindent : ∀ c ∈ indent, isIndent c = true) {o : Nat}
    (hspot : companionSpot? (mask code) prop = some o) (h : Progress origin (prop :: props) todo code) :
    Progress origin props todo (insertAt code o (companionBlock newline indent prop)) := by
  have hprop := (h.properties prop List.mem_cons_self).1
  obtain ⟨a, c, b, hmask, rfl, hc, hbrace⟩ := exists_cut hprop hspot
  obtain ⟨hout, hlast⟩ := outside_of_memberEnd hmask hc
  have hinert : ∀ d ∈ companionBlock newline indent prop, isInert d = true := fun d hd =>
    isInert_of_isQuiet (isQuiet_companionBlock hnewline hindent hprop.2 d hd)
  have hjoint := joint_companionBlock (a := a) (b := b) hnewline hindent hprop hc
  have hmask' := mask_insertAt_companionBlock hnewline hindent hprop.2 hmask hc
  have hmoves : Moves (Spot (prop :: props) (a ++ [c] ++ b))
      (Spot props (a ++ [c] ++ (companionBlock newline indent prop ++ b))) (a ++ [c])
      (companionBlock newline indent prop) := by
    rintro o' ⟨q, hq, hnew⟩
    obtain ⟨-, o, ho, hmoved⟩ := companionSpot?_companionBlock hnewline hindent hprop hc hbrace hjoint
      (h.properties q (List.mem_cons_of_mem prop hq)).1 hnew
    exact ⟨o, ⟨q, List.mem_cons_of_mem prop hq, ho⟩, hmoved⟩
  rw [hmask] at hspot
  have hhere : Spot (prop :: props) (a ++ [c] ++ b) (a ++ [c]).length := ⟨prop, List.mem_cons_self, hspot⟩
  obtain ⟨v, hv⟩ : ∃ v, companionBlock newline indent prop = v ++ ['}'] := by
    obtain ⟨-, v, hv⟩ := exists_companionBlock newline indent prop
    exact ⟨v ++ newline ++ indent, by rw [hv]; simp⟩
  refine h.insert (List.sublist_cons_self prop props) hmask hmask' hjoint ?_ ?_ ?_
  · intro q o' hq hnew
    rw [hmask'] at hnew
    rw [hmask]
    obtain ⟨hne, hold⟩ :=
      companionSpot?_companionBlock hnewline hindent hprop hc hbrace hjoint hq.1 hnew
    exact ⟨fun hmem => (List.mem_cons.mp hmem).resolve_left hne, hold⟩
  · rw [hmask, hmask']
    rintro q g u hq hcut hu hstands (hown | ⟨hmem, hold⟩)
    · left
      rw [hv] at hmoves ⊢
      exact Own.companion_front hc hmoves hhere hcut hu hown
    · exact .inr ⟨hmem, hjoint.first_new_front hq.1 hcut hstands hold.first,
        Bare.companion_front hnewline hc hcut hu hold.bare, Open.front hmask hmask' hjoint hcut hold.line⟩
  · rw [hmask, hmask']
    rintro q k x hq rfl hstands (hown | ⟨hmem, hold⟩)
    · left
      rw [hv] at hmoves ⊢
      exact Own.companion_behind hc hmoves hhere hown
    · exact .inr ⟨hmem, hjoint.first_new_behind hq.1 rfl hold.first,
        hold.bare, Open.companion_behind hnewline hindent hmask hmask' hjoint hout hlast hinert hold.line⟩

/-- **The companion of one property is done.** -/
theorem Progress.addCompanion (h : Progress origin (prop :: props) todo code) :
    Progress origin props todo (addCompanion newline code prop) := by
  rcases addCompanion_eq newline code prop with ⟨hnone, heq⟩ | ⟨o, indent, hspot, hindent, heq⟩
  · rw [heq]
    exact h.companion_done hnone
  · rw [heq]
    exact h.insert_companion hnewline hindent hspot

end Companion

/-! ## The whole run -/

section Run

variable {origin newline : Text} (hnewline : IsNewline newline)

include hnewline

/-- **Mending one property** takes it off both lists. -/
theorem Progress.mend {prop : String} {code : Text} {props todo : List Text}
    (h : Progress origin (prop.toList :: props) (prop.toList :: todo) code) :
    Progress origin props todo (Repair.mend newline code prop) :=
  (h.addAttribute hnewline).addCompanion hnewline

/-- **A run** mends all properties. -/
theorem progress_foldl {props : List String} {code : Text}
    (h : Progress origin (props.map String.toList) (props.map String.toList) code) :
    Progress origin [] [] (props.foldl (mend newline) code) := by
  induction props generalizing code with
  | nil => exact h
  | cons prop props ih => exact ih (h.mend hnewline)

end Run

end ChartLint.Repair
