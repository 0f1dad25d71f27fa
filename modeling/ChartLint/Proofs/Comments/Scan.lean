import ChartLint.Proofs.Lexing.Uncomment
import ChartLint.Proofs.Pattern.Matches
import ChartLint.Proofs.Respacing.Search

/-!
# Searching a script without its comments

A search of the script itself meets comments. Two things can go wrong: a match that starts outside of
comments may read something else because of one, and a match that starts in a comment may reach out of it
and hide a match behind it. When neither happens (`Undisturbed`), the search reads outside of comments what
it reads in the uncommented script (`Undisturbed.readings_uncomment`).

The search is looked at by offsets (`findAll_eq_scan`): what starts at an offset, and from which offset on a
match may start again. Two such searches are led side by side by the offsets at which they may look
(`Abreast`, `scan_alike`).
-/

namespace ChartLint.Pattern

open Text Lexing

/-! ## A search by offsets -/

/-- The matches that start at one of `n` offsets from `pos` on, none of them below `resume`; `at?` is
what starts at an offset. -/
def scan (at? : Nat → Option Match) : Nat → Nat → Nat → List Match
  | _, _, 0 => []
  | resume, pos, n + 1 =>
    if pos < resume then
      scan at? resume (pos + 1) n
    else
      match at? pos with
      | some m => m :: scan at? m.stop (pos + 1) n
      | none => scan at? resume (pos + 1) n

section Scan

variable {at? : Nat → Option Match} {resume pos n : Nat}

theorem scan_skip (h : pos < resume) : scan at? resume pos (n + 1) = scan at? resume (pos + 1) n := by
  rw [scan, if_pos h]

theorem scan_miss (h : at? pos = none) : scan at? resume pos (n + 1) = scan at? resume (pos + 1) n := by
  rw [scan, h, ite_self]

theorem scan_hit (hlook : ¬ pos < resume) {m : Match} (h : at? pos = some m) :
    scan at? resume pos (n + 1) = m :: scan at? m.stop (pos + 1) n := by
  rw [scan, if_neg hlook, h]

end Scan

theorem findAllFrom_eq_scan (p : Pattern) (resume : Nat) (g x : Text) :
    p.findAllFrom resume g.length g.getLast? x
      = scan (p.matchAtOffset? (g ++ x)) resume g.length (x.length + 1) := by
  have hat : ∀ g x : Text, p.matchAtOffset? (g ++ x) g.length = p.matchAt? ⟨g.length, g.getLast?, x⟩ :=
    fun g x => by rw [matchAtOffset?, ofOffset_append]
  induction x generalizing g resume with
  | nil =>
    rw [findAllFrom, scan, hat]
    rcases p.matchAt? ⟨g.length, g.getLast?, []⟩ with _ | m
    · rfl
    · rfl
  | cons c x ih =>
    have hnext : ∀ resume', p.findAllFrom resume' (g.length + 1) (some c) x
        = scan (p.matchAtOffset? (g ++ c :: x)) resume' (g.length + 1) (x.length + 1) := by
      intro resume'
      have hrest := ih resume' (g ++ [c])
      simpa using hrest
    rw [findAllFrom, List.length_cons, scan, hat]
    by_cases hskip : g.length < resume
    · rw [if_pos hskip, if_pos hskip, hnext]
    · rw [if_neg hskip, if_neg hskip]
      cases p.matchAt? ⟨g.length, g.getLast?, c :: x⟩ with
      | none => exact hnext resume
      | some m => exact congrArg (m :: ·) (hnext m.stop)

/-- **A search by offsets.** -/
theorem findAll_eq_scan (p : Pattern) (t : Text) :
    p.findAll t = scan (p.matchAtOffset? t) 0 0 (t.length + 1) :=
  findAllFrom_eq_scan p 0 [] t

/-! ## Two searches, one of which sees less -/

section Alike

variable {hidden : Nat → Prop} {pos resume resume' : Nat}

/-- From `pos` on two searches may look at the same offsets, but for hidden ones. -/
structure Abreast (hidden : Nat → Prop) (pos resume resume' : Nat) : Prop where
  behind : ∀ o, pos ≤ o → o < resume' → o < resume
  ahead : ∀ o, pos ≤ o → o < resume → o < resume' ∨ hidden o

theorem Abreast.refl (hidden : Nat → Prop) (pos resume : Nat) : Abreast hidden pos resume resume :=
  ⟨fun _ _ h => h, fun _ _ h => .inl h⟩

theorem Abreast.next (h : Abreast hidden pos resume resume') : Abreast hidden (pos + 1) resume resume' :=
  ⟨fun o ho => h.behind o (Nat.le_of_succ_le ho), fun o ho => h.ahead o (Nat.le_of_succ_le ho)⟩

/-- At a shown offset both searches may look, or neither may. -/
theorem Abreast.look (h : Abreast hidden pos resume resume') (hpos : ¬ hidden pos) :
    pos < resume ↔ pos < resume' :=
  ⟨fun hlt => (h.ahead pos (Nat.le_refl _) hlt).resolve_right hpos, h.behind pos (Nat.le_refl _)⟩

/-- A match of the first search that stays hidden leaves the searches abreast. -/
theorem Abreast.hide (h : Abreast hidden pos resume resume') (hlook : ¬ pos < resume) {stop : Nat}
    (hstop : ∀ o < stop, pos ≤ o → hidden o) : Abreast hidden (pos + 1) stop resume' where
  behind o ho hlt := absurd (h.behind pos (Nat.le_refl _) (by omega)) hlook
  ahead o ho hlt := .inr (hstop o hlt (Nat.le_of_succ_le ho))

/-- **Two searches side by side.** At shown offsets the same starts in both; at hidden ones nothing starts
in the second search, and what the first search finds there stays hidden. Then the first search finds at
shown offsets what the second one finds. `view` and `view'` are what is looked at. -/
theorem scan_alike {α : Type} {at? at?' : Nat → Option Match} [DecidablePred hidden]
    {view view' : Match → α} (hview : ∀ m m', view m = view' m' → m.stop = m'.stop)
    (hstart : ∀ o m, at? o = some m → m.start = o)
    (hsilent : ∀ o, hidden o → at?' o = none) {n : Nat}
    (halike : ∀ o < pos + n, ¬ hidden o → (at? o).map view = (at?' o).map view')
    (hconfined : ∀ m ∈ scan at? resume pos n, hidden m.start → ∀ o < m.stop, m.start ≤ o → hidden o)
    (habreast : Abreast hidden pos resume resume') :
    ((scan at? resume pos n).filter (fun m => ¬ hidden m.start)).map view
      = (scan at?' resume' pos n).map view' := by
  -- offset by offset, the two searches abreast at each
  induction n generalizing pos resume resume' with
  | zero => rfl
  | succ n ih =>
    have hlater : ∀ o < pos + 1 + n, ¬ hidden o → (at? o).map view = (at?' o).map view' :=
      fun o ho => halike o (by omega)
    by_cases hpos : hidden pos
    · -- nothing starts here in the second search
      rw [scan_miss (hsilent pos hpos)]
      by_cases hlook : pos < resume
      · rw [scan_skip hlook] at hconfined ⊢
        exact ih hlater hconfined habreast.next
      · cases hm : at? pos with
        | none =>
          rw [scan_miss hm] at hconfined ⊢
          exact ih hlater hconfined habreast.next
        | some m =>
          rw [scan_hit hlook hm, List.forall_mem_cons, hstart pos m hm] at hconfined
          rw [scan_hit hlook hm, List.filter_cons_of_neg (by simpa [hstart pos m hm] using hpos)]
          exact ih hlater hconfined.2 (habreast.hide hlook (hconfined.1 hpos))
    · -- both searches look here or neither does, and what starts here starts in both
      have hboth := habreast.look hpos
      by_cases hlook : pos < resume
      · rw [scan_skip (hboth.mp hlook)]
        rw [scan_skip hlook] at hconfined ⊢
        exact ih hlater hconfined habreast.next
      · have hsame := halike pos (by omega) hpos
        cases hm : at? pos with
        | none =>
          have hm' : at?' pos = none := by simpa [hm] using hsame.symm
          rw [scan_miss hm']
          rw [scan_miss hm] at hconfined ⊢
          exact ih hlater hconfined habreast.next
        | some m =>
          rw [hm] at hsame
          obtain ⟨m', hm', heq⟩ := Option.map_eq_some_iff.mp hsame.symm
          rw [scan_hit hlook hm, List.forall_mem_cons] at hconfined
          rw [scan_hit hlook hm, scan_hit (fun h => hlook (hboth.mpr h)) hm',
            List.filter_cons_of_pos (by simpa [hstart pos m hm] using hpos), List.map_cons, List.map_cons,
            heq, ← hview m m' heq.symm, ih hlater hconfined.2 (Abreast.refl hidden (pos + 1) m.stop)]

end Alike

/-! ## What a search of the script reads -/

/-- What a match reads: its place in the text and the parts that it keeps. -/
structure Reading where
  start : Nat
  stop : Nat
  kind : Text
  name : Text
deriving DecidableEq, Repr

/-- The reading of a match in a text. -/
def readingOf (t : Text) (m : Match) : Reading :=
  ⟨m.start, m.stop, m.part .kind t, m.part .name t⟩

/-- The readings of the matches in a script that start outside of comments and literals. -/
def readings (p : Pattern) (src : Source) : List Reading :=
  ((p.findAll src.code).map (readingOf src.code)).filter (fun reading => !src.isBlanked reading.start)

/-- **No comment disturbs the search:** a match that starts outside of comments reads without them what it
reads with them, and one that the search finds in a comment stays in comments. -/
structure Undisturbed (p : Pattern) (code : Text) : Prop where
  alike : ∀ o ≤ code.length, ¬ InComment code o →
    (p.matchAtOffset? code o).map (readingOf code)
      = (p.matchAtOffset? (uncomment code) o).map (readingOf (uncomment code))
  confined : ∀ m ∈ p.findAll code, InComment code m.start →
    ∀ o < m.stop, m.start ≤ o → InComment code o

instance (p : Pattern) (code : Text) : Decidable (p.Undisturbed code) :=
  decidable_of_iff (_ ∧ _) ⟨fun h => ⟨h.1, h.2⟩, fun h => ⟨h.alike, h.confined⟩⟩

/-- No blank and no line terminator starts a match. -/
def StartsVisible (p : Pattern) : Prop :=
  p.NoStart [' '] ∧ p.NoStart ['\n'] ∧ p.NoStart ['\r']

variable {p : Pattern} {code : Text}

theorem StartsVisible.noStart (hp : p.StartsVisible) {c : Char} (hc : isVisible c = false) :
    p.NoStart [c] := by
  have hblank : c = ' ' ∨ c = '\n' ∨ c = '\r' := by
    simpa only [isVisible, isTerminator, Bool.not_eq_false', Bool.or_eq_true, beq_iff_eq] using hc
  rcases hblank with rfl | rfl | rfl
  · exact hp.1
  · exact hp.2.1
  · exact hp.2.2

theorem start_matchAtOffset? {t : Text} {o : Nat} {m : Match} (hm : p.matchAtOffset? t o = some m) :
    m.start = o := by
  obtain ⟨e, -, rfl⟩ := Option.map_eq_some_iff.mp hm
  rfl

theorem found_of_matchAtOffset? {t : Text} {o : Nat} {m : Match} (ho : o ≤ t.length)
    (hm : p.matchAtOffset? t o = some m) : Found p t m := by
  obtain ⟨g, x, rfl, rfl⟩ := exists_append ho
  rw [matchAtOffset?, ofOffset_append] at hm
  exact ⟨g, g.getLast?, x, rfl, hm⟩

/-- What starts a match is visible. -/
theorem StartsVisible.visible (hp : p.StartsVisible) {t : Text} {m : Match} (h : Found p t m) {c : Char}
    (hc : t[m.start]? = some c) : isVisible c = true := by
  obtain ⟨g, x, r, rfl, hm⟩ := h
  obtain ⟨-, -, -, -, hstart, -⟩ := accepts_of_matchAt? hm
  rw [hstart, List.getElem?_append_right (Nat.le_refl _), Nat.sub_self, ← List.head?_eq_getElem?] at hc
  obtain ⟨r, rfl⟩ := List.head?_eq_some_iff.mp hc
  by_contra hno
  rw [Respacing.matchAt?_of_noStart (hp.noStart (by simpa using hno))] at hm
  cases hm

/-- Without the comments nothing starts where one was. -/
theorem not_inComment_of_found (hp : p.StartsVisible) {m : Match} (h : Found p (uncomment code) m) :
    ¬ InComment code m.start := by
  intro hin
  have hlt : m.start < (uncomment code).length := by
    rw [length_uncomment]
    exact hin.lt_length
  have hchar := List.getElem?_eq_getElem hlt
  exact (not_inComment_of_isVisible hchar (hp.visible h hchar)).1 hin

theorem matchAtOffset?_inComment (hp : p.StartsVisible) {o : Nat} (h : InComment code o) :
    p.matchAtOffset? (uncomment code) o = none := by
  by_contra hne
  obtain ⟨m, hm⟩ := Option.ne_none_iff_exists'.mp hne
  have hle : o ≤ (uncomment code).length := by
    rw [length_uncomment]
    exact Nat.le_of_lt h.lt_length
  have hshown := not_inComment_of_found hp (found_of_matchAtOffset? hle hm)
  rw [start_matchAtOffset? hm] at hshown
  exact hshown h

/-- **A search that no comment disturbs** finds outside of comments what it finds without them. -/
theorem Undisturbed.findAll_uncomment (hp : p.StartsVisible) (h : p.Undisturbed code) :
    ((p.findAll code).filter (fun m => ¬ InComment code m.start)).map (readingOf code)
      = (p.findAll (uncomment code)).map (readingOf (uncomment code)) := by
  have hconfined := h.confined
  rw [findAll_eq_scan] at hconfined
  rw [findAll_eq_scan, findAll_eq_scan, length_uncomment]
  exact scan_alike (fun m m' heq => congrArg Reading.stop heq) (fun o m hm => start_matchAtOffset? hm)
    (fun o ho => matchAtOffset?_inComment hp ho) (fun o ho => h.alike o (by omega)) hconfined
    (Abreast.refl _ 0 0)

/-- A match that starts in a comment is blanked. -/
theorem isBlanked_of_mem_findAll (hp : p.StartsVisible) {m : Match} (hm : m ∈ p.findAll code)
    (h : InComment code m.start) : (Source.ofCode code).isBlanked m.start = true := by
  have hchar := List.getElem?_eq_getElem h.lt_length
  exact isBlanked_of_inComment h hchar (hp.visible (found_of_mem_findAll hm) hchar)

/-- What is read starts outside of comments. -/
theorem not_inComment_of_mem_readings (hp : p.StartsVisible) {reading : Reading}
    (h : reading ∈ p.readings (.ofCode code)) : ¬ InComment code reading.start := by
  intro hin
  obtain ⟨hmem, hshown⟩ := List.mem_filter.mp h
  obtain ⟨m, hm, rfl⟩ := List.mem_map.mp hmem
  have hblanked : (Source.ofCode code).isBlanked m.start = true := isBlanked_of_mem_findAll hp hm hin
  simp [readingOf, hblanked] at hshown

/-- **The script reads as it does without its comments** where no comment disturbs the search. -/
theorem Undisturbed.readings_uncomment (hp : p.StartsVisible) (h : p.Undisturbed code) :
    p.readings (.ofCode (uncomment code)) = p.readings (.ofCode code) := by
  have hcomments : (p.findAll code).filter (fun m => !(Source.ofCode code).isBlanked m.start)
      = ((p.findAll code).filter (fun m => ¬ InComment code m.start)).filter
          (fun m => !(Source.ofCode code).isBlanked m.start) := by
    rw [List.filter_filter]
    refine List.filter_congr (fun m hm => ?_)
    by_cases hin : InComment code m.start
    · simp [isBlanked_of_mem_findAll hp hm hin]
    · simp [hin]
  have hsame : ∀ reading ∈ (p.findAll (uncomment code)).map (readingOf (uncomment code)),
      (!(Source.ofCode (uncomment code)).isBlanked reading.start)
        = !(Source.ofCode code).isBlanked reading.start := by
    intro reading hreading
    obtain ⟨m, hm, rfl⟩ := List.mem_map.mp hreading
    have hshown := not_inComment_of_found hp (found_of_mem_findAll hm)
    exact congrArg _ (isBlanked_uncomment hshown)
  calc p.readings (.ofCode (uncomment code))
      = ((p.findAll (uncomment code)).map (readingOf (uncomment code))).filter
          (fun reading => !(Source.ofCode code).isBlanked reading.start) := List.filter_congr hsame
    _ = ((p.findAll code).map (readingOf code)).filter
          (fun reading => !(Source.ofCode code).isBlanked reading.start) := by
        rw [← h.findAll_uncomment hp, List.filter_map, List.filter_map]
        exact congrArg (List.map (readingOf code)) hcomments.symm

end ChartLint.Pattern
