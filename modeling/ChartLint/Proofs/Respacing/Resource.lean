import ChartLint.Proofs.Respacing.Skeleton
import ChartLint.Proofs.Source.Argument

/-!
# Resources of a respaced script

The findings on objects that are created too early, on lists that only grow and on drawings with a
fixed tag follow the script. A tag is read from the script, between places that the mask decides; it
may hold a line break, and then it is none of the tags that are meant to be drawn over.
-/

namespace ChartLint

namespace Respacing

open Text Pattern Source Rule

variable {r : Respacing} {p : Platform}

/-! ## Creation -/

/-- The creation of a series, with its type between the brackets. -/
theorem steady_creation : r.Steady Resource.seriesCreation :=
  steady_of_isSteady (by decide)

/-- **The findings on series** that are created too early or too late follow the script. -/
theorem creation_text {t : Text} (hfits : r.Fits t) :
    r.Alike (Resource.seriesFindings (r.text t)) (Resource.seriesFindings t) := by
  refine alike_filterMapM steady_creation hfits (fun m hm => ?_)
  have hfound := found_of_mem_findAll hm
  have hphase := at?_start hfits m
  have hline := lineOf_start (r := r) hfound
  have htype := part_unbroken (r := r) hfound .name (by decide)
  -- the phase decides whether there is a report, and whether its place has a name
  simp only [hphase, Resource.seriesFinding?, htype]
  split
  · rfl
  · cases Resource.placeName (Phase.at? (Phase.marks t) m.start) with
    | error fault => rfl
    | ok place =>
      simp only [map_ok, Option.map_some, Function.comp_apply, shown, moved, Finding.error, hline]

/-- **The findings on indicators** that are created too early follow the script. -/
theorem assignment_text (hserves : r.Serves p) {t : Text} (hfits : r.Fits t) :
    r.Alike (Resource.indicatorFindings p (r.text t)) (Resource.indicatorFindings p t) := by
  refine alike_filterMapM (steady_assignment hserves) hfits (fun m hm => ?_)
  have hfound := found_of_mem_findAll hm
  have hphase := at?_start hfits m
  have hline := lineOf_start (r := r) hfound
  simp only [hphase, Resource.indicatorFinding?, part_moved hfound]
  split
  · cases Resource.placeName (Phase.at? (Phase.marks t) m.start) with
    | error fault => rfl
    | ok place =>
      simp only [map_ok, Option.map_some, Function.comp_apply, shown, moved, Finding.error, hline,
        clean_append, clean_quote]
  · rfl

/-! ## Lists -/

/-- A choice between steady patterns is steady: each of its matches is one of theirs. -/
theorem Steady.alt {a b : Pattern} (ha : r.Steady a) (hb : r.Steady b) : r.Steady (.alt a b) := by
  have hstart : ∀ {v : Text}, a.NoStart v → b.NoStart v → (Pattern.alt a b).NoStart v := by
    rintro v hva hvb x z ⟨a₁, a₂, hsplit, hne, w, u, hrest, hacc⟩
    rcases hacc with hacc | hacc
    · exact hva x z ⟨a₁, a₂, hsplit, hne, w, u, hrest, hacc⟩
    · exact hvb x z ⟨a₁, a₂, hsplit, hne, w, u, hrest, hacc⟩
  refine ⟨?_, hstart ha.noFeed hb.noFeed, hstart ha.noReturn hb.noReturn⟩
  rw [standings, ha.even, hb.even]
  rfl

section Names

variable {name : Text} (hne : name ≠ []) (hname : Unbroken name)

include hne hname

/-- A member of a variable and what is said of it. -/
theorem steady_member (back : Pattern)
    (hback : ∀ returns, (blanks ++ "." ++ blanks ++ back).standings returns .onlyEven = .onlyEven) :
    r.Steady (Resource.memberOf name ++ back) := by
  have h := r.steady_around .edge _ hne hname (by decide) hback
    (fun c hc => noStart_edge_literal hne hname hc)
  unfold Resource.memberOf
  simpa only [append_assoc] using h

/-- A call that makes a list grow. -/
theorem steady_growth : r.Steady (Resource.growth name) := by
  have h := r.steady_member hne hname (anyWord ["Add", "AddRange", "Insert"] ++ blanks ++ "(") (by decide)
  unfold Resource.growth
  simpa only [append_assoc] using h

/-- A call that makes a list shrink, or a test of its length. -/
theorem steady_bound : r.Steady (Resource.bound name) := by
  have hcall := r.steady_member hne hname
    (anyWord ["Clear", "RemoveAt", "RemoveRange", "RemoveAll", "Remove"] ++ blanks ++ "(")
    (by decide)
  have htest := r.steady_member hne hname ("Count" ++ blanks ++ anyWord [">=", ">", "=="]) (by decide)
  have h := hcall.alt htest
  unfold Resource.bound
  simpa only [append_assoc] using h

end Names

theorem steady_list : r.Steady Resource.listDeclaration :=
  steady_of_isSteady (by decide)

/-- Where a list variable lies in the respaced script. -/
def variableAt (place : Nat → Nat) (v : Resource.ListVariable) : Resource.ListVariable :=
  ⟨v.name, place v.offset⟩

/-- Moving variables keeps their names, so that the first of each name stays the first. -/
theorem firstOfEach_map (place : Nat → Nat) (vs : List Resource.ListVariable) :
    Resource.firstOfEach (vs.map (variableAt place))
      = (Resource.firstOfEach vs).map (variableAt place) := by
  induction vs with
  | nil => rfl
  | cons v vs ih =>
    rw [List.map_cons, Resource.firstOfEach, ih, Resource.firstOfEach, List.map_cons, List.filter_map]
    rfl

theorem mem_of_mem_firstOfEach {v : Resource.ListVariable} {vs : List Resource.ListVariable}
    (h : v ∈ Resource.firstOfEach vs) : v ∈ vs := by
  induction vs with
  | nil => exact h
  | cons w vs ih =>
    rw [Resource.firstOfEach] at h
    rcases List.mem_cons.mp h with rfl | h
    · exact List.mem_cons_self
    · exact List.mem_cons_of_mem w (ih (List.mem_of_mem_filter h))

/-- **The list variables** are those of the script, each at its place. -/
theorem listVariables_text {t : Text} (hfits : r.Fits t) :
    Resource.listVariables (r.text t) = (Resource.listVariables t).map (variableAt (r.place t)) := by
  unfold Resource.listVariables
  rw [← firstOfEach_map, findAll_text steady_list hfits, List.map_map, List.map_map]
  congr 1
  refine List.map_congr_left (fun m hm => ?_)
  have hfound := found_of_mem_findAll hm
  simp only [Function.comp_apply, variableAt, part_unbroken hfound .name (by decide), span_moved]

/-- What is known of a list variable. -/
theorem unbroken_listVariable {t : Text} {v : Resource.ListVariable} (h : v ∈ Resource.listVariables t) :
    v.name ≠ [] ∧ Unbroken v.name ∧ v.offset ≤ t.length := by
  obtain ⟨m, hm, rfl⟩ := List.mem_map.mp (mem_of_mem_firstOfEach h)
  have hfound := found_of_mem_findAll hm
  refine ⟨hfound.part_ne_nil (by decide) (by decide), unbroken_of_isWord ?_, (hfound.span_le .name).1⟩
  refine hfound.forall_mem_part (fun q hq x w u hacc => ?_)
  obtain rfl : q = word := List.mem_singleton.mp hq
  exact (accepts_many1.mp hacc).2

/-- **The findings on lists** follow the script: the same lists grow and are never bounded. -/
theorem follows_list : r.Follows Resource.listFindings := by
  intro t hfits
  unfold Resource.listFindings
  rw [listVariables_text hfits, List.filter_map, List.map_map, List.map_map, List.map_map]
  -- the question is asked of the name, which does not move
  have hgrows : (Resource.listVariables t).filter
      ((fun v => Resource.growsForever (r.text t) v.name) ∘ variableAt (r.place t))
      = (Resource.listVariables t).filter (fun v => Resource.growsForever t v.name) := by
    refine List.filter_congr (fun v hv => ?_)
    obtain ⟨hne, hname, -⟩ := unbroken_listVariable hv
    simp only [Function.comp_apply, variableAt, Resource.growsForever]
    rw [occursIn_text (steady_growth hne hname) hfits, occursIn_text (steady_bound hne hname) hfits]
  rw [hgrows]
  refine List.map_congr_left (fun v hv => ?_)
  obtain ⟨-, -, hoffset⟩ := unbroken_listVariable (List.mem_of_mem_filter hv)
  simp only [Function.comp_apply, variableAt, shown, moved, Finding.warning, lineNo_lineOf hoffset]

/-! ## Tags of drawings -/

/-- The call of a drawing, the literal of a fixed tag, and what makes a tag vary. -/
theorem steady_drawing :
    r.Steady Resource.drawing ∧ r.Steady Resource.tagLiteral ∧ r.Steady Resource.varying :=
  ⟨steady_of_isSteady (by decide), steady_of_isSteady (by decide), steady_of_isSteady (by decide)⟩

section Tag

variable {src src' : Source} (h : r.Respaced src src') {call : Match}
  (hcall : Found Resource.drawing src.masked call)

include hcall

/-- A tag lies behind the opening of its call and inside the script. -/
theorem tagSpan_bounds :
    call.stop ≤ (Resource.tagSpan src call).start
      ∧ (Resource.tagSpan src call).stop ≤ src.masked.length := by
  have hstop := hcall.bounds.2
  have hskip := (List.takeWhile_prefix isBlank (l := src.code.drop call.stop)).length_le
  rw [List.length_drop, ← length_masked] at hskip
  refine ⟨Nat.le_add_right _ _, ?_⟩
  have hend := (endsArgument_argumentAt src.masked
    (call.stop + ((src.code.drop call.stop).takeWhile isBlank).length)).stop_le
  refine Nat.le_trans hend ?_
  omega

include h

/-- **The tag** of a drawing stands at its place. -/
theorem tagSpan_text :
    Resource.tagSpan src' (call.moved (r.place src.masked))
      = r.span src.masked (Resource.tagSpan src call) := by
  have hstop := hcall.bounds.2
  have hskip := (List.takeWhile_prefix isBlank (l := src.code.drop call.stop)).length_le
  rw [List.length_drop, ← length_masked] at hskip
  unfold Resource.tagSpan
  simp only [Match.moved]
  -- the blanks behind the comma are skipped in the code, the end of the argument is found in the mask
  rw [h.code, h.masked, place_masked, place_skip (by rwa [← length_masked]), ← place_masked]
  exact argumentAt_text (by omega)

end Tag

/-- A tag is looked at together with the line of its call. -/
theorem occursIn_line_tag {q : Pattern} (hq : r.Steady q) {g x s : Text}
    (hs : '\n' ∉ x → '\n' ∉ s) (hfits : r.Fits (joinLines [ownLine g x, s])) :
    q.occursIn (joinLines [ownLine (r.text g) (r.inner x), r.inner s])
      = q.occursIn (joinLines [ownLine g x, s]) := by
  have hjoin : ∀ a b : Text, joinLines [a, b] = a ++ '\n' :: b := by
    intro a b
    rw [joinLines_cons (by simp)]
    simp [joinLines, List.intercalate]
  rw [hjoin] at hfits ⊢
  rw [hjoin, ownLine_text]
  -- where the call is on the last line, its line has no break that could be respelled
  by_cases hx : '\n' ∈ x
  · rw [ending, if_pos hx, ← occursIn_inner hq hfits, inner_append, inner_cons_feed,
      inner_of_not_mem (not_mem_ownLine g x), List.append_assoc]
  · rw [ending, if_neg hx, List.append_nil, inner_of_not_mem (hs hx)]

/-- Respelling brings in carriage returns and nothing else. -/
theorem mem_inner_iff {c : Char} (hc : c ≠ '\r') {t : Text} : c ∈ r.inner t ↔ c ∈ t := by
  constructor
  · exact fun hmem => (mem_inner hmem).resolve_right hc
  · intro hmem
    have hfilter : c ∈ (r.inner t).filter (· != '\r') := by
      rw [filter_inner]
      exact List.mem_filter.mpr ⟨hmem, by simpa using hc⟩
    exact List.mem_of_mem_filter hfilter

/-- A tag is interpolated by a sign in front of its quotes and a brace between them. No line break
is either. -/
theorem isInterpolated_inner (expr content : Text) :
    Resource.isInterpolated (r.inner expr) (r.inner content) = Resource.isInterpolated expr content := by
  -- a line break in front stops the run of signs whether it is one character or two
  have hsign : ∀ t : Text, (((r.inner t).dropWhile (· == '@')).head? == some '$')
      = ((t.dropWhile (· == '@')).head? == some '$') := by
    intro t
    induction t with
    | nil => rfl
    | cons c t ih =>
      by_cases hc : c = '\n'
      · subst hc
        rw [inner_cons_feed, lineEnd]
        split <;> rfl
      · rw [inner_cons_of_ne hc, List.dropWhile_cons, List.dropWhile_cons]
        split
        · exact ih
        · rfl
  have hhole : List.contains (r.inner content) '{' = List.contains content '{' := by
    rw [Bool.eq_iff_iff, List.contains_iff_mem, List.contains_iff_mem, mem_inner_iff (by decide)]
  unfold Resource.isInterpolated
  rw [hhole, trimStartBy, trimStartBy, hsign]

/-- A slice that starts behind a front has nothing of the front. -/
theorem mem_of_mem_slice {g x : Text} {a b : Nat} (ha : g.length ≤ a) {c : Char}
    (hc : c ∈ (g ++ x).slice a b) : c ∈ x := by
  obtain ⟨k, rfl⟩ := Nat.exists_eq_add_of_le ha
  rw [slice, ← List.drop_drop, List.drop_take, List.drop_left] at hc
  exact List.mem_of_mem_take (List.mem_of_mem_drop hc)

/-- **The line of a call** is there in both scripts. Looked at together with the tag, it shows
something that varies in both of them or in neither. -/
theorem exists_lines_text {src src' : Source} (h : r.Respaced src src') {call : Match}
    (hcall : Found Resource.drawing src.masked call) :
    ∃ line line', lineAt (lines src.masked) (lineOf src.masked call.start) = .ok line
      ∧ lineAt (lines src'.masked) (lineOf src'.masked (call.moved (r.place src.masked)).start) = .ok line'
      ∧ Resource.varying.occursIn (joinLines
          [line', r.inner (src.masked.within (Resource.tagSpan src call))])
        = Resource.varying.occursIn (joinLines [line, src.masked.within (Resource.tagSpan src call)]) := by
  have hfrom := (tagSpan_bounds hcall).1
  obtain ⟨g, x, hmask, hstart, hstart', -⟩ := exists_start (r := r) hcall
  have hfits : r.Fits (g ++ x) := hmask ▸ h.fits_masked
  rw [hstart, hstart', h.masked, hmask, text_append, lineAt_append, lineAt_append]
  refine ⟨_, _, rfl, rfl, occursIn_line_tag steady_drawing.2.2 ?_ (fits_joinLines hfits ?_)⟩
  · -- the tag is read behind the call, hence in the part whose line ends are asked for
    intro hx hmem
    exact hx (mem_of_mem_slice (by have := hcall.bounds.1; omega) hmem)
  · intro l hl c hc
    rcases List.mem_cons.mp hl with rfl | hl
    · exact mem_of_mem_ownLine hc
    · rw [List.mem_singleton.mp hl] at hc
      exact List.mem_of_mem_take (List.mem_of_mem_drop hc)

/-- **A fixed tag** is the same tag, spelled anew. -/
theorem staticTag?_text {src src' : Source} (h : r.Respaced src src') {call : Match}
    (hcall : Found Resource.drawing src.masked call) :
    Resource.staticTag? src' (call.moved (r.place src.masked))
      = (Resource.staticTag? src call).map (Option.map r.inner) := by
  obtain ⟨-, hliteral, -⟩ := steady_drawing (r := r)
  have hto := (tagSpan_bounds hcall).2
  have hspan := tagSpan_text h hcall
  -- the tag stands at the same offsets of the code and of its mask: one is read for the literal, the
  -- other for what varies
  have hexpr : src'.code.within (r.span src.masked (Resource.tagSpan src call))
      = r.inner (src.code.within (Resource.tagSpan src call)) := by
    rw [h.code, span, place_masked]
    exact within_text src.code (by rwa [← length_masked])
  have hshown : src'.masked.within (r.span src.masked (Resource.tagSpan src call))
      = r.inner (src.masked.within (Resource.tagSpan src call)) := by
    rw [h.masked]
    exact within_text src.masked hto
  have hfitsExpr : r.Fits (src.code.within (Resource.tagSpan src call)) := (h.fits.take _).drop _
  -- the expression is read on its own, with no line breaks put in front of it
  have hmatch := matchAt?_even hliteral.spelled (r.spelled.place_strictMono _)
    (even_ofOffset (r := r.spelled) hfitsExpr (Nat.zero_le _))
  rw [text_spelled, place_zero, show r.spelled.head.length = 0 from rfl] at hmatch
  obtain ⟨line, line', hline, hline', hwindow⟩ := exists_lines_text h hcall
  unfold Resource.staticTag?
  simp only
  rw [hspan, hexpr, hshown, hline, hline', hmatch]
  cases hm : Resource.tagLiteral.matchAt?
      (Cursor.ofOffset (src.code.within (Resource.tagSpan src call)) 0) with
  | none => rfl
  | some m =>
    have hfound : Found Resource.tagLiteral (src.code.within (Resource.tagSpan src call)) m :=
      ⟨[], none, _, rfl, hm⟩
    have hcontent := part_moved (r := r.spelled) hfound .name
    rw [text_spelled] at hcontent
    -- the literal, the line and the sign in front of the quotes: all three are asked of both scripts
    simp only [Option.map_some, map_ok]
    rw [hcontent, hwindow]
    have hinterpolated := r.isInterpolated_inner (src.code.within (Resource.tagSpan src call))
      (m.part .name (src.code.within (Resource.tagSpan src call)))
    have hinner : r.spelled.inner (m.part .name (src.code.within (Resource.tagSpan src call)))
        = r.inner (m.part .name (src.code.within (Resource.tagSpan src call))) := rfl
    rw [hinner, hinterpolated]
    split
    · rfl
    · rfl

/-- The tags that are meant to be drawn over have no line break. -/
theorem contains_fixedDrawTags (hserves : r.Serves p) (t : Text) :
    p.fixedDrawTags.contains (String.ofList (r.inner t)) = p.fixedDrawTags.contains (String.ofList t) := by
  cases hr : r.returns with
  | false => rw [inner_of_not_returns hr]
  | true =>
    have hfixed : ∀ tag ∈ p.fixedDrawTags, '\n' ∉ tag.toList := by
      rw [hserves hr]
      decide
    -- a tag with a line break is in neither spelling one of the table
    by_cases ht : '\n' ∈ t
    · have hnone : ∀ u : Text, '\n' ∈ u → p.fixedDrawTags.contains (String.ofList u) = false := by
        intro u hu
        rw [Bool.eq_false_iff, Ne, List.contains_iff_mem]
        intro hmem
        exact hfixed _ hmem (by rwa [String.toList_ofList])
      rw [hnone t ht, hnone _ ((mem_inner_iff (by decide)).mpr ht)]
    · rw [inner_of_not_mem ht]

/-- **The findings on drawings** follow the script. -/
theorem drawing_text (hserves : r.Serves p) {src src' : Source} (h : r.Respaced src src') :
    r.Alike (Resource.drawingFindings p src') (Resource.drawingFindings p src) := by
  unfold Resource.drawingFindings
  rw [h.masked]
  refine alike_filterMapM steady_drawing.1 h.fits_masked (fun call hcall => ?_)
  have hfound := found_of_mem_findAll hcall
  have hline := lineOf_start (r := r) hfound
  rw [← h.masked] at hline
  unfold Resource.drawingFinding?
  simp only
  -- the method is the same, and the tag is the same up to its spelling
  rw [staticTag?_text h hfound, h.masked, part_unbroken hfound .kind (by decide), ← h.masked]
  split
  · rfl
  · rcases Resource.staticTag? src call with fault | _ | content
    · rfl
    · rfl
    · simp only [map_ok, Option.map_some]
      rw [contains_fixedDrawTags hserves]
      split
      · rfl
      · simp only [Option.map_some, Function.comp_apply, shown, moved, Finding.error, hline,
          clean_append, clean_quote]

/-- **The resources** follow the script. -/
theorem resource_text (hserves : r.Serves p) {src src' : Source} (h : r.Respaced src src') :
    r.Alike (Resource.findings p src') (Resource.findings p src) := by
  unfold Resource.findings
  have hseries := creation_text h.fits_masked
  have hindicators := assignment_text hserves h.fits_masked
  have hlists := follows_list src.masked h.fits_masked
  rw [← h.masked] at hseries hindicators hlists
  refine hseries.bind (fun series' series hfirst => ?_)
  refine hindicators.bind (fun indicators' indicators hsecond => ?_)
  refine (drawing_text hserves h).bind (fun drawings' drawings hthird => alike_ok ?_)
  simp only [List.map_append, hfirst, hsecond, hthird, hlists]

end Respacing

end ChartLint
