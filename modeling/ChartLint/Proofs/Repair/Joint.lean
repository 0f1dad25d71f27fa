import ChartLint.Proofs.Repair.Spot

/-!
# Insertions of the repair

A block that is put into a text should leave the properties around it alone. It does so at a clean joint
(`Joint`): the declarations of the text are then those of the text with the block, in the same order
(`Joint.head_old`, `Joint.head_new`), and the spot of every companion moves along with the text
(`Joint.companionSpot?`). Both blocks of the repair make a clean joint: the line of the attribute where
no head runs over the start of the line (`joint_attributeLine`), the companion behind every semicolon and
closing brace (`joint_companionBlock`).
-/

namespace ChartLint.Repair

open Pattern Text Source Rule

/-! ## Clean joints -/

/-- **A clean joint:** a piece that is put between `a` and `b` breaks no head, no head enters or leaves it,
and it declares no brush property; and it closes the braces that it opens. -/
structure Joint (a v b : Text) : Prop where
  clear : ∀ {type name g w r}, type ∈ headTypes → IsName name → IsHead type.toList name w →
    a ++ b = g ++ (w ++ r) → g.length < a.length → g.length + w.length ≤ a.length
  entry : ∀ {type name g w r}, type ∈ headTypes → IsName name → IsHead type.toList name w →
    a ++ (v ++ b) = g ++ (w ++ r) → g.length < a.length → g.length + w.length ≤ a.length
  start : ∀ {name g w r}, IsName name → IsHead "Brush".toList name w →
    a ++ (v ++ b) = g ++ (w ++ r) → a.length ≤ g.length → a.length + v.length ≤ g.length
  leave : ∀ {type name g w r}, type ∈ headTypes → IsName name → IsHead type.toList name w →
    a ++ (v ++ b) = g ++ (w ++ r) → a.length ≤ g.length → g.length < a.length + v.length →
    g.length + w.length ≤ a.length + v.length
  balanced : Balanced v

/-- No head runs over the offset. -/
def Clear (t : Text) (offset : Nat) : Prop :=
  ∀ {type name g w r}, type ∈ headTypes → IsName name → IsHead type.toList name w →
    t = g ++ (w ++ r) → g.length < offset → g.length + w.length ≤ offset

section Joint

variable {a v b : Text} (hjoint : Joint a v b)

include hjoint

/-- A head of the text stands in the text with the piece. -/
theorem Joint.head_new {type : String} {name g w r : Text} (htype : type ∈ headTypes)
    (hname : IsName name) (hhead : IsHead type.toList name w) (h : a ++ b = g ++ (w ++ r)) :
    (∃ u, a = g ++ (w ++ u) ∧ r = u ++ b) ∨ ∃ k, g = a ++ k ∧ b = k ++ (w ++ r) := by
  rcases Nat.lt_or_ge g.length a.length with hlt | hge
  · have hle := hjoint.clear htype hname hhead h hlt
    have hends : (g ++ w) ++ r = a ++ b := by rw [h, List.append_assoc]
    obtain ⟨u, rfl, rfl⟩ := exists_of_append_eq_append hends (by simpa using hle)
    exact .inl ⟨u, by simp, rfl⟩
  · exact .inr (exists_of_append_eq_append h hge)

/-- A declaration of the text with the piece stands in the text. -/
theorem Joint.head_old {name g w r : Text} (hname : IsName name)
    (hhead : IsHead "Brush".toList name w) (h : a ++ (v ++ b) = g ++ (w ++ r)) :
    (∃ u, a = g ++ (w ++ u) ∧ r = u ++ (v ++ b)) ∨ ∃ k, g = a ++ (v ++ k) ∧ b = k ++ (w ++ r) := by
  rcases Nat.lt_or_ge g.length a.length with hlt | hge
  · have hle := hjoint.entry (by decide : "Brush" ∈ headTypes) hname hhead h hlt
    have hends : (g ++ w) ++ r = a ++ (v ++ b) := by rw [h, List.append_assoc]
    obtain ⟨u, rfl, rfl⟩ := exists_of_append_eq_append hends (by simpa using hle)
    exact .inl ⟨u, by simp, rfl⟩
  · have hle := hjoint.start hname hhead h hge
    have hends : (a ++ v) ++ b = g ++ (w ++ r) := by rw [← h, List.append_assoc]
    obtain ⟨k, rfl, rfl⟩ := exists_of_append_eq_append hends (by simpa using hle)
    exact .inr ⟨k, by simp, rfl⟩

theorem Joint.hasHead {type : String} {name : Text} (htype : type ∈ headTypes) (hname : IsName name)
    (h : HasHead type.toList name (a ++ b)) : HasHead type.toList name (a ++ (v ++ b)) := by
  obtain ⟨g, _, hsplit, w, r, rfl, hhead⟩ := h
  rcases hjoint.head_new htype hname hhead hsplit with ⟨u, rfl, rfl⟩ | ⟨k, rfl, rfl⟩
  · exact ⟨g, w ++ (u ++ (v ++ b)), by simp, w, _, rfl, hhead⟩
  · exact ⟨a ++ (v ++ k), w ++ r, by simp, w, r, rfl, hhead⟩

/-- The first declaration of the text with the piece is the first one of the text: in front of the
piece, -/
theorem Joint.first_old_front {prop g u : Text} (hprop : IsName prop) (ha : a = g ++ u)
    (hstands : Stands "Brush".toList prop (u ++ b)) (h : First prop g (u ++ (v ++ b))) :
    First prop g (u ++ b) := by
  refine ⟨hstands, ?_⟩
  rintro g' _ hsplit ⟨w, r, rfl, hhead⟩
  have hwhole : a ++ b = g' ++ (w ++ r) := by rw [hsplit, ha, List.append_assoc]
  rcases hjoint.head_new (by decide : "Brush" ∈ headTypes) hprop hhead hwhole with
    ⟨u', ha', rfl⟩ | ⟨k, rfl, -⟩
  · refine h.le g' (w ++ (u' ++ (v ++ b))) ?_ ⟨w, _, rfl, hhead⟩
    rw [← List.append_assoc g u, ← ha, ha']
    simp
  · rw [ha, List.length_append, List.length_append]
    omega

/-- or behind it. -/
theorem Joint.first_old_behind {prop k x : Text} (hprop : IsName prop) (hb : b = k ++ x)
    (h : First prop (a ++ (v ++ k)) x) : First prop (a ++ k) x := by
  refine ⟨h.stands, ?_⟩
  rintro g' _ hsplit ⟨w, r, rfl, hhead⟩
  have hwhole : a ++ b = g' ++ (w ++ r) := by rw [hsplit, hb, List.append_assoc]
  rcases hjoint.head_new (by decide : "Brush" ∈ headTypes) hprop hhead hwhole with
    ⟨u', ha', rfl⟩ | ⟨k', rfl, hb'⟩
  · have hle := h.le g' (w ++ (u' ++ (v ++ b))) (by rw [ha', hb]; simp) ⟨w, _, rfl, hhead⟩
    have hpos := hhead.length_pos
    rw [ha'] at hle
    simp only [List.length_append] at hle
    omega
  · have hle := h.le (a ++ (v ++ k')) (w ++ r) (by simp [← hb', ← hb]) ⟨w, r, rfl, hhead⟩
    simp only [List.length_append] at hle ⊢
    omega

/-- The other way round: the first declaration of the text stays the first one. -/
theorem Joint.first_new_front {prop g u : Text} (hprop : IsName prop) (ha : a = g ++ u)
    (hstands : Stands "Brush".toList prop (u ++ (v ++ b))) (h : First prop g (u ++ b)) :
    First prop g (u ++ (v ++ b)) := by
  refine ⟨hstands, ?_⟩
  rintro g' _ hsplit ⟨w, r, rfl, hhead⟩
  have hwhole : a ++ (v ++ b) = g' ++ (w ++ r) := by rw [hsplit, ha, List.append_assoc]
  rcases hjoint.head_old hprop hhead hwhole with ⟨u', ha', rfl⟩ | ⟨k, rfl, -⟩
  · refine h.le g' (w ++ (u' ++ b)) ?_ ⟨w, _, rfl, hhead⟩
    rw [← List.append_assoc g u, ← ha, ha']
    simp
  · rw [ha, List.length_append, List.length_append]
    omega

theorem Joint.first_new_behind {prop k x : Text} (hprop : IsName prop) (hb : b = k ++ x)
    (h : First prop (a ++ k) x) : First prop (a ++ (v ++ k)) x := by
  refine ⟨h.stands, ?_⟩
  rintro g' _ hsplit ⟨w, r, rfl, hhead⟩
  have hwhole : a ++ (v ++ b) = g' ++ (w ++ r) := by rw [hsplit, hb]; simp
  rcases hjoint.head_old hprop hhead hwhole with ⟨u', ha', rfl⟩ | ⟨k', rfl, hb'⟩
  · have hle := h.le g' (w ++ (u' ++ b)) (by rw [ha', hb]; simp) ⟨w, _, rfl, hhead⟩
    have hpos := hhead.length_pos
    rw [ha'] at hle
    simp only [List.length_append] at hle
    omega
  · have hle := h.le (a ++ k') (w ++ r) (by simp [← hb', ← hb]) ⟨w, r, rfl, hhead⟩
    simp only [List.length_append] at hle ⊢
    omega

/-- Where no head runs over an offset, none does afterwards: in front of the piece, -/
theorem Joint.clear_front {offset : Nat} (hle : offset ≤ a.length) (h : Clear (a ++ b) offset) :
    Clear (a ++ (v ++ b)) offset := by
  intro type name g w r htype hname hhead hsplit hlt
  have hbound := hjoint.entry htype hname hhead hsplit (by omega)
  have hends : (g ++ w) ++ r = a ++ (v ++ b) := by rw [hsplit, List.append_assoc]
  obtain ⟨u, rfl, -⟩ := exists_of_append_eq_append hends (by simpa using hbound)
  exact h htype hname hhead (r := u ++ b) (by simp) hlt

/-- or behind it. -/
theorem Joint.clear_behind {offset : Nat} (hle : a.length ≤ offset) (h : Clear (a ++ b) offset) :
    Clear (a ++ (v ++ b)) (offset + v.length) := by
  intro type name g w r htype hname hhead hsplit hlt
  rcases Nat.lt_or_ge g.length a.length with hin | hge
  · have hbound := hjoint.entry htype hname hhead hsplit hin
    omega
  rcases Nat.lt_or_ge g.length (a.length + v.length) with hin | hge'
  · have hbound := hjoint.leave htype hname hhead hsplit hge hin
    omega
  · have hcut : (a ++ v) ++ b = g ++ (w ++ r) := by rw [← hsplit, List.append_assoc]
    obtain ⟨k, rfl, hk⟩ := exists_of_append_eq_append hcut (by simpa using hge')
    have hold : a ++ b = (a ++ k) ++ (w ++ r) := by rw [hk, List.append_assoc]
    have hbound := h htype hname hhead hold (by
      simp only [List.length_append] at hlt ⊢
      omega)
    simp only [List.length_append] at hbound ⊢
    omega

/-- A property that is not closed after an insertion was not closed before. -/
theorem Joint.unclosed {prop : Text} (hprop : IsName prop) (h : Unclosed (a ++ (v ++ b)) prop) :
    Unclosed (a ++ b) prop := by
  obtain ⟨g, w, r, hsplit, hhead, hfirst, hr⟩ := (unclosed_iff hprop).mp h
  rw [unclosed_iff hprop]
  rcases hjoint.head_old hprop hhead hsplit with ⟨u, ha, rfl⟩ | ⟨k, rfl, rfl⟩
  · have hstands : Stands "Brush".toList prop ((w ++ u) ++ b) := ⟨w, u ++ b, by simp, hhead⟩
    have hfirst' := hjoint.first_old_front hprop (by rw [ha]) hstands (by simpa using hfirst)
    refine ⟨g, w, u ++ b, by rw [ha]; simp, hhead, by simpa using hfirst', ?_⟩
    rcases closing?_insert hjoint.balanced u b with ⟨n, -, hnew, -⟩ | ⟨found, hnew, hold⟩
    · rw [hnew] at hr
      cases hr
    · rw [hold, Option.map_eq_none_iff]
      rwa [hnew, Option.map_eq_none_iff] at hr
  · exact ⟨a ++ k, w, r, by simp, hhead, hjoint.first_old_behind hprop rfl hfirst, hr⟩

/-- **A spot after an insertion** is the spot before it, moved along with the text. -/
theorem Joint.companionSpot? {prop : Text} (hprop : IsName prop)
    (hspares : ∀ {g w body z}, a = g ++ (w ++ (body ++ '}' :: z)) → IsHead "Brush".toList prop w →
      closing? (body ++ '}' :: (z ++ b)) = some body.length → Spares z v)
    {o' : Nat} (h : companionSpot? (a ++ (v ++ b)) prop = some o') :
    ∃ o, companionSpot? (a ++ b) prop = some o
      ∧ ((o ≤ a.length ∧ o' = o) ∨ (a.length < o ∧ o' = o + v.length)) := by
  obtain ⟨hcompanion, g, w, body', z', value', hsplit, hfirst, hclosed, rfl⟩ :=
    (companionSpot?_eq_some hprop).mp h
  have hlacks : ¬ HasHead "string".toList (prop ++ Brush.companionEnding) (a ++ b) := fun hhas =>
    hcompanion (hjoint.hasHead (by decide : "string" ∈ headTypes) (isName_companion hprop) hhas)
  have hhead := hclosed.head
  rcases hjoint.head_old hprop hhead hsplit with ⟨u, ha, hu⟩ | ⟨k, rfl, rfl⟩
  · have hstands : Stands "Brush".toList prop ((w ++ u) ++ b) := ⟨w, u ++ b, by simp, hhead⟩
    have hfirst' : First prop g ((w ++ u) ++ b) := by
      refine hjoint.first_old_front hprop (by rw [ha]) hstands ?_
      rwa [List.append_assoc, ← hu]
    rw [List.append_assoc] at hfirst'
    have hclosing := hclosed.closing
    rw [hu] at hclosing
    rcases closing?_insert hjoint.balanced u b with ⟨n, hn, hnew, hold⟩ | ⟨found, hnew, hold⟩
    · -- the closing brace stands in front of the piece
      obtain rfl : n = body'.length := Option.some.inj (hnew.symm.trans hclosing)
      obtain ⟨z, rfl, rfl⟩ : ∃ z, u = body' ++ '}' :: z ∧ z' = z ++ (v ++ b) := by
        have hcut : body' ++ ['}'] ++ z' = u ++ (v ++ b) := by rw [← hu]; simp
        obtain ⟨z, rfl, rfl⟩ := exists_of_append_eq_append hcut (by rwa [List.length_append])
        exact ⟨z, by simp, rfl⟩
      have hold' : closing? (body' ++ '}' :: (z ++ b)) = some body'.length := by
        rw [← hold]
        simp
      obtain ⟨value, hvalue, hlength⟩ := hclosed.value.of_insert (hspares ha hhead hold')
      refine ⟨(g ++ w ++ body').length + 1 + value.length, ?_, ?_⟩
      · rw [companionSpot?_eq_some hprop]
        refine ⟨hlacks, g, w, body', z ++ b, value, by rw [ha]; simp, ?_, ⟨hhead, hold', hvalue⟩, rfl⟩
        simpa using hfirst'
      · rw [ha]
        simp only [List.length_append, List.length_cons]
        omega
    · -- the closing brace stands behind the piece
      obtain ⟨j, rfl, hj⟩ := Option.map_eq_some_iff.mp (hnew.symm.trans hclosing)
      have hcut : (u ++ v) ++ b = body' ++ '}' :: z' := by rw [hu, List.append_assoc]
      obtain ⟨k, rfl, rfl⟩ := exists_of_append_eq_append hcut (by rw [List.length_append]; omega)
      refine ⟨(g ++ w ++ (u ++ k)).length + 1 + value'.length, ?_, .inr ⟨?_, ?_⟩⟩
      · rw [companionSpot?_eq_some hprop]
        refine ⟨hlacks, g, w, u ++ k, z', value', by rw [ha]; simp, by simpa using hfirst',
          ⟨hhead, ?_, hclosed.value⟩, rfl⟩
        rw [List.append_assoc, hold, Option.map_some, Option.some.injEq]
        simp only [List.length_append] at hj ⊢
        omega
      · rw [ha]
        simp only [List.length_append]
        omega
      · simp only [List.length_append]
        omega
  · -- the property stands behind the piece
    refine ⟨(a ++ k ++ w ++ body').length + 1 + value'.length, ?_, .inr ⟨?_, ?_⟩⟩
    · rw [companionSpot?_eq_some hprop]
      exact ⟨hlacks, a ++ k, w, body', z', value', by simp, hjoint.first_old_behind hprop rfl hfirst,
        hclosed, rfl⟩
    · simp only [List.length_append]
      omega
    · simp only [List.length_append]
      omega

end Joint

/-! ## The two blocks -/

section Block

variable {type name g w r : Text} (htype : IsName type) (hname : IsName name)
  (hhead : IsHead type name w)

include htype hname hhead

/-- A head that starts in front of a character that no head has ends in front of it. -/
theorem IsHead.le_of_barrier {a b : Text} {c : Char} (hc : isPlain c = false)
    (h : a ++ c :: b = g ++ (w ++ r)) (hlt : g.length ≤ a.length) :
    g.length + w.length ≤ a.length + 1 := by
  obtain ⟨w₀, rfl, hplain⟩ := hhead.plain htype hname
  obtain ⟨k, rfl, hk⟩ := exists_of_append_eq_append h.symm hlt
  by_contra hgt
  simp only [List.length_append, List.length_singleton] at hgt
  rw [List.append_assoc] at hk
  obtain ⟨m, rfl, hm⟩ := exists_of_append_eq_append hk.symm (by omega)
  cases m with
  | nil =>
    rw [List.append_nil] at hgt
    omega
  | cons d m =>
    rw [List.cons_append, List.cons.injEq] at hm
    have hd := hplain d (by simp)
    rw [← hm.1, hc] at hd
    cases hd

/-- A head does not enter a piece in which a character that no head has stands in front of every
brace. -/
theorem IsHead.le_of_wall {a v b : Text} {d : Char} (hd : isPlain d = false) (hv : '{' ∉ v ++ [d])
    (h : a ++ (v ++ d :: b) = g ++ (w ++ r)) (hlt : g.length ≤ a.length) :
    g.length + w.length ≤ a.length := by
  have hbarrier : g.length + w.length ≤ (a ++ v).length + 1 :=
    hhead.le_of_barrier htype hname hd (by rw [List.append_assoc, h])
      (by rw [List.length_append]; omega)
  by_contra hgt
  obtain ⟨w₀, rfl, -⟩ := hhead.plain htype hname
  have hends : (g ++ (w₀ ++ ['{'])) ++ r = a ++ ((v ++ [d]) ++ b) := by rw [List.append_assoc, ← h]; simp
  obtain ⟨m, hm, hrest⟩ := exists_of_append_eq_append hends.symm (by rw [List.length_append]; omega)
  -- what the head takes of the piece ends with a brace
  have hmem : '{' ∈ m := by
    rcases List.eq_nil_or_concat m with rfl | ⟨m', c, rfl⟩
    · have hlen := congrArg List.length hm
      simp only [List.append_nil, List.length_append, List.length_singleton] at hlen hgt
      omega
    · have hlast := congrArg List.getLast? hm
      rw [List.concat_eq_append, ← List.append_assoc, ← List.append_assoc, List.getLast?_concat,
        List.getLast?_concat, Option.some.injEq] at hlast
      rw [List.concat_eq_append, hlast]
      simp
  obtain ⟨k, hk, -⟩ := exists_of_append_eq_append hrest.symm (by
    have hlen := congrArg List.length hm
    simp only [List.length_append, List.length_singleton] at hlen hbarrier ⊢
    omega)
  exact hv (hk ▸ List.mem_append_left k hmem)

omit htype hname in
/-- A head does not start in a piece without its first letter. -/
theorem IsHead.le_of_not_mem {a v b : Text} (hv : 'p' ∉ v) (h : a ++ (v ++ b) = g ++ (w ++ r))
    (hle : a.length ≤ g.length) : a.length + v.length ≤ g.length := by
  by_contra hgt
  obtain ⟨k, rfl, hk⟩ := exists_of_append_eq_append h hle
  rw [List.length_append] at hgt
  obtain ⟨m, rfl, hm⟩ := exists_of_append_eq_append hk.symm (by omega)
  cases m with
  | nil =>
    rw [List.append_nil] at hgt
    omega
  | cons c m =>
    have hfirst := hhead.head?
    cases w with
    | nil => cases hfirst
    | cons d w =>
      rw [List.cons_append, List.cons_append, List.cons.injEq] at hm
      rw [List.head?_cons, Option.some.injEq] at hfirst
      exact hv (by simp [← hm.1, hfirst])

/-- A head ends with the first brace of a text, or starts behind it. -/
theorem IsHead.at_brace_or {p rest k : Text} (hp : '{' ∉ p) (h : p ++ '{' :: rest = k ++ (w ++ r)) :
    k ++ w = p ++ ['{'] ∨ ∃ k', k = p ++ '{' :: k' ∧ rest = k' ++ (w ++ r) := by
  rcases Nat.lt_or_ge p.length k.length with hlt | hge
  · have hcut : (p ++ ['{']) ++ rest = k ++ (w ++ r) := by rw [← h]; simp
    obtain ⟨k', rfl, hk'⟩ := exists_of_append_eq_append hcut (by rwa [List.length_append])
    exact .inr ⟨k', by simp, hk'⟩
  · obtain ⟨w₀, rfl, hplain⟩ := hhead.plain htype hname
    have hw₀ : '{' ∉ w₀ := by
      intro hmem
      cases hplain _ hmem
    have hcut : [] ++ (p ++ '{' :: rest) = k ++ (w₀ ++ '{' :: r) := by rw [List.nil_append, h]; simp
    obtain ⟨heq, -⟩ := same_brace hcut hp hw₀ (Nat.zero_le _) (by simpa using hge)
    rw [List.nil_append] at heq
    exact .inl (by rw [heq, List.append_assoc])

/-- A head that ends with a text has its first letter in it. -/
theorem IsHead.letter_mem {k t : Text} (h : k ++ w = t ++ ['{']) : 'p' ∈ t := by
  obtain ⟨w₀, rfl, -⟩ := hhead.plain htype hname
  have hletter := hhead.head?
  rw [← List.append_assoc] at h
  rw [← List.append_cancel_right h]
  cases w₀ with
  | nil => cases hletter
  | cons c w₀ =>
    rw [List.cons_append, List.head?_cons, Option.some.injEq] at hletter
    simp [hletter]

/-- It has it behind every character that no head has. -/
theorem IsHead.letter_mem_behind {k t u : Text} {c : Char} (hc : isPlain c = false)
    (h : k ++ w = t ++ c :: (u ++ ['{'])) : 'p' ∈ u := by
  rcases Nat.lt_or_ge t.length k.length with hlt | hge
  · have hcut : (t ++ [c]) ++ (u ++ ['{']) = k ++ w := by rw [h]; simp
    obtain ⟨m, rfl, hm⟩ := exists_of_append_eq_append hcut (by rwa [List.length_append])
    exact hhead.letter_mem htype hname hm.symm
  · have hcut : t ++ c :: (u ++ ['{']) = k ++ (w ++ []) := by rw [← h, List.append_nil]
    have hbound := hhead.le_of_barrier htype hname hc hcut hge
    have hlen := congrArg List.length h
    simp only [List.length_append, List.length_cons, List.length_nil] at hlen hbound
    omega

/-- A head does not start in a piece without braces that ends with a character that no head has. -/
theorem IsHead.le_of_last {x b k : Text} {d : Char} (hd : isPlain d = false) (hx : '{' ∉ x ++ [d])
    (h : x ++ [d] ++ b = k ++ (w ++ r)) : (x ++ [d]).length ≤ k.length := by
  by_contra hgt
  rw [List.length_append, List.length_singleton] at hgt
  have hcut : k ++ (w ++ r) = x ++ d :: b := by rw [← h]; simp
  obtain ⟨m, rfl, hm⟩ := exists_of_append_eq_append hcut (by omega)
  have hm' : '{' ∉ m ++ [d] := fun hmem => hx (by rw [List.append_assoc]; exact List.mem_append_right k hmem)
  have hbound := hhead.le_of_wall htype hname hd hm' (by rw [hm]) (Nat.le_refl k.length)
  cases w with
  | nil => cases hhead.head?
  | cons c w =>
    rw [List.length_cons] at hbound
    omega

/-- **No head starts in a pair of accessors:** in front of their braces and between them its first letter
is missing, or a brace of the other kind is in the way. -/
theorem IsHead.le_of_accessors {get read set write b k : Text} (hget : '{' ∉ get ∧ 'p' ∉ get)
    (hread : '{' ∉ read) (hset : '{' ∉ set ∧ 'p' ∉ set) (hwrite : '{' ∉ write)
    (h : get ++ '{' :: (read ++ '}' :: (set ++ '{' :: (write ++ ['}']))) ++ b = k ++ (w ++ r)) :
    (get ++ '{' :: (read ++ '}' :: (set ++ '{' :: (write ++ ['}'])))).length ≤ k.length := by
  have hmiddle : '{' ∉ read ++ '}' :: set :=
    List.not_mem_append hread (List.not_mem_cons_of_ne_of_not_mem (by decide) hset.1)
  have hlast : '{' ∉ write ++ ['}'] := List.not_mem_append hwrite (by decide)
  simp only [List.append_assoc, List.cons_append, List.nil_append] at h
  rcases hhead.at_brace_or htype hname hget.1 h with heq | ⟨k₁, rfl, h₁⟩
  · exact absurd (hhead.letter_mem htype hname heq) hget.2
  have h₁' : (read ++ '}' :: set) ++ '{' :: (write ++ ['}'] ++ b) = k₁ ++ (w ++ r) := by
    rw [← h₁]
    simp
  rcases hhead.at_brace_or htype hname hmiddle h₁' with heq | ⟨k₂, rfl, h₂⟩
  · rw [List.append_assoc, List.cons_append] at heq
    exact absurd (hhead.letter_mem_behind htype hname (by decide : isPlain '}' = false) heq) hset.2
  have hbound := hhead.le_of_last htype hname (by decide : isPlain '}' = false) hlast h₂
  simp only [List.length_append, List.length_cons, List.length_nil] at hbound ⊢
  omega

end Block

/-- **The line of the attribute** makes a clean joint where no head runs over the start of the line. -/
theorem joint_attributeLine {newline indent a b : Text} (hnewline : IsNewline newline)
    (hindent : ∀ c ∈ indent, isIndent c = true) (hclear : Clear (a ++ b) a.length) :
    Joint a (attributeLine newline indent) b := by
  have hfree : ∀ {P : Char → Bool}, P ' ' = true → P '\t' = true → P '\n' = true → P '\r' = true →
      "[XmlIgnore]".toList.all P = true → ∀ c ∈ attributeLine newline indent, P c = true := by
    intro P h₁ h₂ h₃ h₄ h₅
    rw [attributeLine, List.forall_mem_append, List.forall_mem_append]
    exact ⟨⟨forall_mem_indent hindent h₁ h₂, List.all_eq_true.mp h₅⟩,
      forall_mem_newline hnewline h₃ h₄⟩
  -- every head has this letter, so none lies in the line
  have hletter : 'p' ∉ attributeLine newline indent := by
    intro hmem
    cases hfree (P := (· != 'p')) rfl rfl rfl rfl rfl _ hmem
  refine ⟨hclear, ?_, ?_, ?_, ?_⟩
  · intro type name g w r htype hname hhead h hlt
    have hwall : '{' ∉ indent ++ ['['] := by
      intro hmem
      rcases List.mem_append.mp hmem with hmem | hmem
      · cases hindent _ hmem
      · simp at hmem
    refine hhead.le_of_wall (isName_of_mem_headTypes htype) hname (by decide : isPlain '[' = false) hwall
      (b := "XmlIgnore]".toList ++ newline ++ b) (r := r) ?_ (by omega)
    rw [← h, attributeLine]
    simp
  · intro name g w r hname hhead h hle
    exact hhead.le_of_not_mem hletter h hle
  · intro type name g w r htype hname hhead h hle hlt
    exact absurd (hhead.le_of_not_mem hletter h hle) (by omega)
  · apply balanced_of_forall
    intro c hc
    have hbrace := hfree (P := fun c => c != '{' && c != '}') rfl rfl rfl rfl rfl c hc
    simpa using hbrace

/-! ### The companion -/

section Companion

variable (newline indent prop : Text)

/-- What stands in front of the head of a companion. -/
def companionFront : Text :=
  newline ++ newline ++ indent ++ "[Browsable(false)]".toList ++ newline ++ indent

/-- The head of a companion, without its brace. -/
def companionHead : Text :=
  "public".toList ++ [' '] ++ "string".toList ++ [' '] ++ (prop ++ Brush.companionEnding)
    ++ (newline ++ indent)

/-- What stands in front of the brace of an accessor of a companion. -/
def companionAccessor (word : String) : Text :=
  newline ++ indent ++ word.toList

/-- What stands between the braces of the accessor that reads the property. -/
def companionRead : Text :=
  " return Serialize.BrushToString(".toList ++ prop ++ "); ".toList

/-- What stands between the braces of the accessor that writes the property. -/
def companionWrite : Text :=
  " ".toList ++ prop ++ " = Serialize.StringToBrush(value); ".toList

/-- The companion from behind its head. -/
def companionBody : Text :=
  companionAccessor newline indent "    get " ++ '{' :: (companionRead prop
    ++ '}' :: (companionAccessor newline indent "    set "
      ++ '{' :: (companionWrite prop ++ '}' :: (newline ++ indent) ++ ['}'])))

/-- The two accessors of a companion. -/
def companionAccessors : Text :=
  companionAccessor newline indent "    get " ++ '{' :: (companionRead prop
    ++ '}' :: (companionAccessor newline indent "    set " ++ '{' :: (companionWrite prop ++ ['}'])))

/-- The core of a companion: from its head to the end of the line with its last accessor. -/
def companionCore : Text :=
  companionHead newline indent prop ++ '{' :: (companionAccessors newline indent prop ++ newline)

/-- The companion, cut at its opening braces. -/
theorem companionBlock_eq : companionBlock newline indent prop
    = (companionFront newline indent ++ companionHead newline indent prop)
      ++ '{' :: companionBody newline indent prop := by
  have hhead : "public string ".toList = "public".toList ++ [' '] ++ "string".toList ++ [' '] := by
    decide
  have hget : "    get \x7b return Serialize.BrushToString(".toList
      = "    get ".toList ++ '{' :: " return Serialize.BrushToString(".toList := by decide
  have hread : "); \x7d".toList = "); ".toList ++ ['}'] := by decide
  have hset : "    set \x7b ".toList = "    set ".toList ++ '{' :: " ".toList := by decide
  have hwrite : " = Serialize.StringToBrush(value); \x7d".toList
      = " = Serialize.StringToBrush(value); ".toList ++ ['}'] := by decide
  unfold companionBlock
  simp only []
  rw [hhead, hget, hread, hset, hwrite]
  unfold companionFront companionHead companionBody companionAccessor companionRead companionWrite
  simp only [List.append_assoc, List.cons_append, List.nil_append]

/-- The core stands between the attribute of the companion and its closing brace. -/
theorem companionBlock_eq_core : companionBlock newline indent prop
    = companionFront newline indent ++ (companionCore newline indent prop ++ (indent ++ ['}'])) := by
  rw [companionBlock_eq, companionBody, companionCore, companionAccessors]
  simp only [List.append_assoc, List.cons_append, List.nil_append]

variable {newline indent prop} (hnewline : IsNewline newline)
  (hindent : ∀ c ∈ indent, isIndent c = true) (hprop : IsName prop)

include hnewline hindent

theorem isBlank_newline_indent : ∀ c ∈ newline ++ indent, isBlank c = true := by
  rw [List.forall_mem_append]
  exact ⟨forall_mem_newline hnewline (by decide) (by decide),
    forall_mem_indent hindent (by decide) (by decide)⟩

/-- The head of a companion is one. -/
theorem isHead_companionHead :
    IsHead "string".toList (prop ++ Brush.companionEnding)
      (companionHead newline indent prop ++ ['{']) := by
  rw [isHead_iff]
  refine ⟨[' '], [' '], newline ++ indent, rfl, ?_, ?_, isBlank_newline_indent hnewline hindent⟩
  · exact ⟨List.all_eq_true.mp (by decide), by simp⟩
  · exact ⟨List.all_eq_true.mp (by decide), by simp⟩

/-- A property with the name of the companion stands in the block. -/
theorem hasHead_companionBlock (a b : Text) :
    HasHead "string".toList (prop ++ Brush.companionEnding)
      (a ++ (companionBlock newline indent prop ++ b)) := by
  refine ⟨a ++ companionFront newline indent,
    (companionHead newline indent prop ++ ['{']) ++ (companionBody newline indent prop ++ b), ?_, _, _, rfl,
    isHead_companionHead hnewline hindent⟩
  rw [companionBlock_eq]
  simp only [List.append_assoc, List.cons_append, List.nil_append]

theorem not_mem_newline_indent {c : Char} (hc : isBlank c = false) : c ∉ newline ++ indent := by
  intro hmem
  rw [isBlank_newline_indent hnewline hindent c hmem] at hc
  cases hc

theorem not_mem_companionAccessor {c : Char} {word : String} (hc : isBlank c = false)
    (hword : c ∉ word.toList) : c ∉ companionAccessor newline indent word :=
  List.not_mem_append (not_mem_newline_indent hnewline hindent hc) hword

include hprop

/-- In front of its first brace a companion has none. -/
theorem not_mem_companionHead {c : Char} (hc : c = '{' ∨ c = '}') :
    c ∉ companionFront newline indent ++ companionHead newline indent prop := by
  have hblank : c ∉ newline ++ indent :=
    not_mem_newline_indent hnewline hindent (by rcases hc with rfl | rfl <;> decide)
  have hname : c ∉ prop ++ Brush.companionEnding := by
    intro hmem
    have hword := (isName_companion hprop).2 c hmem
    rcases hc with rfl | rfl <;> cases hword
  have hnewline' : c ∉ newline := fun hmem => hblank (List.mem_append_left _ hmem)
  have hindent' : c ∉ indent := fun hmem => hblank (List.mem_append_right _ hmem)
  apply List.not_mem_append
  · have hopen : c ∉ newline ++ newline ++ indent ++ "[Browsable(false)]".toList :=
      List.not_mem_append (List.not_mem_append (List.not_mem_append hnewline' hnewline') hindent')
        (by rcases hc with rfl | rfl <;> decide)
    exact List.not_mem_append (List.not_mem_append hopen hnewline') hindent'
  · have hfixed : c ∉ "public".toList ++ [' '] ++ "string".toList ++ [' '] := by
      rcases hc with rfl | rfl <;> decide
    exact List.not_mem_append (List.not_mem_append hfixed hname) hblank

omit hnewline hindent in
/-- Between the braces of its accessors there are none. -/
theorem not_mem_companionRead {c : Char} (hc : c = '{' ∨ c = '}') :
    c ∉ companionRead prop ∧ c ∉ companionWrite prop := by
  have hname : c ∉ prop := by
    intro hmem
    have hword := hprop.2 c hmem
    rcases hc with rfl | rfl <;> cases hword
  constructor
  · exact List.not_mem_append (List.not_mem_append (by rcases hc with rfl | rfl <;> decide) hname)
      (by rcases hc with rfl | rfl <;> decide)
  · exact List.not_mem_append (List.not_mem_append (by rcases hc with rfl | rfl <;> decide) hname)
      (by rcases hc with rfl | rfl <;> decide)

/-- **The heads of a companion:** a head that starts in front of the core or in it is the head of the
companion, for behind it stand two accessors and a line break. -/
theorem IsHead.at_companionCore {type name w r u b k : Text} (htype : IsName type) (hname : IsName name)
    (hhead : IsHead type name w) (hu : '{' ∉ u)
    (h : u ++ (companionCore newline indent prop ++ b) = k ++ (w ++ r)) :
    (k = u ∧ type = "string".toList ∧ name = prop ++ Brush.companionEnding)
      ∨ (u ++ companionCore newline indent prop).length ≤ k.length := by
  have hfront : '{' ∉ u ++ companionHead newline indent prop := by
    refine List.not_mem_append hu fun hmem => ?_
    exact not_mem_companionHead hnewline hindent hprop (.inl rfl) (List.mem_append_right _ hmem)
  have hcut : (u ++ companionHead newline indent prop)
      ++ '{' :: (companionAccessors newline indent prop ++ (newline ++ b)) = k ++ (w ++ r) := by
    rw [← h, companionCore]
    simp only [List.append_assoc, List.cons_append]
  -- a head in front of the brace runs up to it, and the companion's own one is there
  rcases hhead.at_brace_or htype hname hfront hcut with heq | ⟨k₁, rfl, hk₁⟩
  · rw [List.append_assoc] at heq
    obtain ⟨rfl, -, rfl, rfl⟩ := IsHead.unique htype hname isName_string (isName_companion hprop) hhead
      (isHead_companionHead hnewline hindent) heq
    exact .inl ⟨rfl, rfl, rfl⟩
  · right
    obtain ⟨hread, hwrite⟩ := not_mem_companionRead hprop (.inl rfl)
    have hbound : (companionAccessors newline indent prop).length ≤ k₁.length := by
      unfold companionAccessors at hk₁ ⊢
      exact hhead.le_of_accessors htype hname
        ⟨not_mem_companionAccessor hnewline hindent (by decide) (by decide),
          not_mem_companionAccessor hnewline hindent (by decide) (by decide)⟩ hread
        ⟨not_mem_companionAccessor hnewline hindent (by decide) (by decide),
          not_mem_companionAccessor hnewline hindent (by decide) (by decide)⟩ hwrite hk₁
    have hletter : 'p' ∉ newline := by
      intro hmem
      cases forall_mem_newline hnewline (P := (· != 'p')) (by decide) (by decide) _ hmem
    have hbound' := hhead.le_of_not_mem hletter hk₁ hbound
    simp only [companionCore, List.length_append, List.length_cons] at hbound' ⊢
    omega

/-- A head that starts in the block is the head of the companion. -/
theorem head_companionBlock {type name g w r a b : Text} (htype : IsName type) (hname : IsName name)
    (hhead : IsHead type name w) (h : a ++ (companionBlock newline indent prop ++ b) = g ++ (w ++ r))
    (hle : a.length ≤ g.length) :
    (g = a ++ companionFront newline indent ∧ type = "string".toList
        ∧ name = prop ++ Brush.companionEnding)
      ∨ a.length + (companionBlock newline indent prop).length ≤ g.length := by
  obtain ⟨k, rfl, hk⟩ := exists_of_append_eq_append h hle
  have hfront : '{' ∉ companionFront newline indent := fun hmem =>
    not_mem_companionHead hnewline hindent hprop (.inl rfl) (List.mem_append_left _ hmem)
  have hcut : companionFront newline indent
      ++ (companionCore newline indent prop ++ ((indent ++ ['}']) ++ b)) = k ++ (w ++ r) := by
    rw [← hk, companionBlock_eq_core]
    simp only [List.append_assoc]
  rcases hhead.at_companionCore hnewline hindent hprop htype hname hfront hcut with ⟨rfl, hsame⟩ | hbound
  · exact .inl ⟨rfl, hsame⟩
  · right
    have hletter : 'p' ∉ indent ++ ['}'] :=
      List.not_mem_append (fun hmem => by cases hindent _ hmem) (by decide)
    have hbound' := hhead.le_of_not_mem hletter (by rw [List.append_assoc]; exact hcut) hbound
    rw [companionBlock_eq_core]
    simp only [List.length_append] at hbound' ⊢
    omega

/-- **The block declares no brush property.** -/
theorem start_companionBlock {name g w r a b : Text} (hname : IsName name)
    (hhead : IsHead "Brush".toList name w)
    (h : a ++ (companionBlock newline indent prop ++ b) = g ++ (w ++ r)) (hle : a.length ≤ g.length) :
    a.length + (companionBlock newline indent prop).length ≤ g.length := by
  refine (head_companionBlock hnewline hindent hprop isName_brush hname hhead h hle).resolve_left ?_
  rintro ⟨-, htypes, -⟩
  cases htypes

omit hnewline hindent hprop in
theorem balanced_of_not_mem {t : Text} (h : ∀ c, c = '{' ∨ c = '}' → c ∉ t) : Balanced t := by
  apply balanced_of_forall
  intro c hc
  exact ⟨fun heq => h c (.inl heq) hc, fun heq => h c (.inr heq) hc⟩

/-- The two accessors close their braces. -/
theorem balanced_companionAccessors : Balanced (companionAccessors newline indent prop ++ newline) := by
  have haccessor : ∀ {word : String}, '{' ∉ word.toList → '}' ∉ word.toList →
      Balanced (companionAccessor newline indent word) := by
    intro word hopen hclose
    refine balanced_of_not_mem fun c hc => not_mem_companionAccessor hnewline hindent
      (by rcases hc with rfl | rfl <;> decide) ?_
    rcases hc with rfl | rfl
    · exact hopen
    · exact hclose
  have hread : Balanced (companionRead prop) :=
    balanced_of_not_mem fun c hc => (not_mem_companionRead hprop hc).1
  have hwrite : Balanced (companionWrite prop) :=
    balanced_of_not_mem fun c hc => (not_mem_companionRead hprop hc).2
  have hfeed : Balanced newline := balanced_of_not_mem fun c hc hmem =>
    not_mem_newline_indent hnewline hindent (by rcases hc with rfl | rfl <;> decide)
      (List.mem_append_left indent hmem)
  have hall : Balanced (companionAccessor newline indent "    get " ++ '{' :: (companionRead prop ++ ['}'])
      ++ companionAccessor newline indent "    set " ++ '{' :: (companionWrite prop ++ ['}']) ++ newline) :=
    ((((haccessor (by decide) (by decide)).append hread.braced).append
      (haccessor (by decide) (by decide))).append hwrite.braced).append hfeed
  rw [companionAccessors]
  simpa only [List.append_assoc, List.cons_append, List.nil_append] using hall

theorem balanced_companionBlock : Balanced (companionBlock newline indent prop) := by
  have hhead : Balanced (companionFront newline indent ++ companionHead newline indent prop) :=
    balanced_of_not_mem fun c hc => not_mem_companionHead hnewline hindent hprop hc
  have hindent' : Balanced indent := balanced_of_not_mem fun c hc hmem =>
    not_mem_newline_indent hnewline hindent (by rcases hc with rfl | rfl <;> decide)
      (List.mem_append_right newline hmem)
  have hblock :=
    hhead.append ((balanced_companionAccessors hnewline hindent hprop).append hindent').braced
  rw [companionBlock_eq_core, companionCore]
  simpa only [List.append_assoc, List.cons_append, List.nil_append] using hblock

omit hnewline hindent hprop in
/-- What ends a member does not stand in a head. -/
theorem not_isPlain_of_mem_memberEnds {c : Char} (hc : c ∈ memberEnds) : isPlain c = false := by
  rcases (by simpa [memberEnds] using hc : c = ';' ∨ c = '}') with rfl | rfl <;> decide

/-- **The companion** makes a clean joint behind every semicolon and closing brace. -/
theorem joint_companionBlock {a b : Text} {c : Char} (hc : c ∈ memberEnds) :
    Joint (a ++ [c]) (companionBlock newline indent prop) b := by
  have hplain := not_isPlain_of_mem_memberEnds hc
  have hbarrier : ∀ {type name g w r y}, type ∈ headTypes → IsName name → IsHead type.toList name w →
      a ++ [c] ++ y = g ++ (w ++ r) → g.length < (a ++ [c]).length →
      g.length + w.length ≤ (a ++ [c]).length := by
    intro type name g w r y htype hname hhead h hlt
    rw [List.append_assoc, List.singleton_append] at h
    rw [List.length_append, List.length_singleton] at hlt ⊢
    exact hhead.le_of_barrier (isName_of_mem_headTypes htype) hname hplain h (by omega)
  refine ⟨hbarrier, hbarrier, start_companionBlock hnewline hindent hprop, ?_,
    balanced_companionBlock hnewline hindent hprop⟩
  intro type name g w r htype hname hhead h hle hlt
  obtain ⟨v, hv⟩ : ∃ v, companionBlock newline indent prop = v ++ ['}'] :=
    ⟨_, (List.append_assoc _ _ ['}']).symm⟩
  rw [hv] at h hlt ⊢
  have hcut : (a ++ [c] ++ v) ++ '}' :: b = g ++ (w ++ r) := by rw [← h]; simp
  have hbound := hhead.le_of_barrier (isName_of_mem_headTypes htype) hname
    (by decide : isPlain '}' = false) hcut
    (by simp only [List.length_append, List.length_singleton] at hlt ⊢; omega)
  simp only [List.length_append, List.length_singleton] at hbound ⊢
  omega

end Companion

end ChartLint.Repair
