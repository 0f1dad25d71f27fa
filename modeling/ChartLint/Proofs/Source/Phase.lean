import ChartLint.Proofs.Pattern.Matches
import ChartLint.Source.Basic
import ChartLint.Source.Phase
import Mathlib.Data.List.Induction

/-!
# The phase of an offset

An offset belongs to the phase whose marker starts nearest in front of it. That reads well because of two
facts about the four markers: no two of them start at the same offset (`eq_of_startsAt`), and no marker
starts inside of another one of its phase, so that the search finds them all (`mem_marks`).

The rest holds of any list of marks in which those of one phase ascend. The search goes phase by phase: it
finds the last mark of each (`lastMark?_spec`) and keeps the latest of them (`foldl_better?_spec`), which is
the nearest mark of all (`latest?_spec`). Both are inductions from the right, since the folds read the marks
and the phases from the left.
-/

namespace ChartLint.Phase

open Text Pattern

/-! ## Markers -/

/-- How the marker of a phase is spelled. -/
def spelling : Phase → List Part
  | .barUpdate =>
    [.ink "void".toList, .space true, .ink "OnBarUpdate".toList, .space false, .ink "(".toList]
  | phase =>
    [.ink "State".toList, .space false, .ink ".".toList, .space false, .ink phase.name.toList]

theorem isSpaced_spelling (phase : Phase) : isSpaced phase.spelling = true := by
  cases phase <;> decide

/-- The marker of a bar update ends with its bracket, the other ones at the edge of a word. -/
theorem marker_eq (phase : Phase) :
    phase.marker = Pattern.edge ++ spelled phase.spelling
      ∨ phase.marker = (Pattern.edge ++ spelled phase.spelling) ++ Pattern.edge := by
  cases phase with
  | barUpdate => exact .inl rfl
  | _ => exact .inr rfl

theorem spells_of_accepts {phase : Phase} {x : Option Char} {w r : Text}
    (h : phase.marker.Accepts x w r) : Spells phase.spelling w := by
  rcases marker_eq phase with hmarker | hmarker
  · rw [hmarker] at h
    exact (accepts_edge_spelled.mp h).2
  · rw [hmarker] at h
    obtain ⟨w₁, w₂, rfl, h₁, rfl, -⟩ := accepts_append.mp h
    rw [List.append_nil]
    exact (accepts_edge_spelled.mp h₁).2

/-- No marker starts inside of another one of its phase. -/
theorem separate_marker (phase : Phase) : phase.marker.Separate :=
  separate_of_keepsApart (fun _ _ _ h => spells_of_accepts h) (by cases phase <;> decide)

theorem consumes_marker (phase : Phase) : phase.marker.Consumes :=
  consumes_of_mayBeEmpty (by cases phase <;> rfl)

/-- **No two markers start at the same place,** since none has the letters of another one in front. -/
theorem eq_of_startsAt {phase phase' : Phase} {x x' : Option Char} {t : Text}
    (h : phase.marker.StartsAt x t) (h' : phase'.marker.StartsAt x' t) : phase = phase' := by
  have hletters : ∀ phase phase' : Phase,
      (inks phase.spelling).flatten <+: (inks phase'.spelling).flatten → phase = phase' := by
    intro phase phase' hprefix
    cases phase <;> cases phase' <;> first | rfl | exact absurd hprefix (by decide)
  obtain ⟨w, r, rfl, hacc⟩ := h
  obtain ⟨w', r', hsplit, hacc'⟩ := h'
  have hfront := (spells_of_accepts hacc).letters (isSpaced_spelling phase) r
  have hfront' := (spells_of_accepts hacc').letters (isSpaced_spelling phase') r'
  rw [← hsplit] at hfront'
  rcases List.prefix_or_prefix_of_prefix hfront hfront' with hprefix | hprefix
  · exact hletters phase phase' hprefix
  · exact (hletters phase' phase hprefix).symm

/-! ## Marks -/

theorem mem_all (phase : Phase) : phase ∈ all := by
  cases phase <;> decide

/-- **The marks of a text** are the places at which the markers match. -/
theorem mem_marks {masked : Text} {phase : Phase} {offset : Nat} :
    ⟨phase, offset⟩ ∈ marks masked ↔ phase.marker.MatchesAt masked offset := by
  rw [← exists_mem_findAll_iff (consumes_marker phase) (separate_marker phase)]
  constructor
  · intro h
    obtain ⟨phase', -, hmem⟩ := List.mem_flatMap.mp h
    obtain ⟨m, hm, heq⟩ := List.mem_map.mp hmem
    cases heq
    exact ⟨m, hm, rfl⟩
  · rintro ⟨m, hm, rfl⟩
    exact List.mem_flatMap.mpr ⟨phase, mem_all phase, List.mem_map_of_mem hm⟩

/-- Markers that match at one offset are the same. -/
theorem eq_of_matchesAt {masked : Text} {phase phase' : Phase} {offset : Nat}
    (h : phase.marker.MatchesAt masked offset) (h' : phase'.marker.MatchesAt masked offset) :
    phase = phase' := by
  obtain ⟨g, u, rfl, rfl⟩ := exists_append h.1
  exact eq_of_startsAt (matchesAt_append.mp h) (matchesAt_append.mp h')

/-- No two marks are at the same offset. -/
theorem distinct_marks (masked : Text) :
    ∀ m ∈ marks masked, ∀ m' ∈ marks masked, m.offset = m'.offset → m = m' := by
  rintro ⟨phase, offset⟩ hm ⟨phase', -⟩ hm' rfl
  rw [eq_of_matchesAt (mem_marks.mp hm) (mem_marks.mp hm')]

/-- The marks of one phase stand in the order of the text. -/
theorem pairwise_marks (masked : Text) :
    (marks masked).Pairwise (fun m m' => m.phase = m'.phase → m.offset < m'.offset) := by
  rw [marks, List.pairwise_flatMap]
  constructor
  · intro phase _
    rw [List.pairwise_map]
    refine (pairwise_start_findAll (consumes_marker phase) masked).imp ?_
    intro m m' hlt _
    exact hlt
  · have hdistinct : all.Pairwise (· ≠ ·) := by decide
    refine hdistinct.imp ?_
    intro phase phase' hne m hm m' hm' heq
    obtain ⟨n, -, rfl⟩ := List.mem_map.mp hm
    obtain ⟨n', -, rfl⟩ := List.mem_map.mp hm'
    exact absurd heq hne

/-! ## The last mark of a phase -/

/-- The mark of the phase starts in front of the offset, and no later one of the phase does. -/
structure IsLast (ms : List Mark) (phase : Phase) (n k : Nat) : Prop where
  mem : ⟨phase, k⟩ ∈ ms
  before : k < n
  last : ∀ k', ⟨phase, k'⟩ ∈ ms → k' < n → k' ≤ k

theorem lastMark?_concat (ms : List Mark) (m : Mark) (phase : Phase) (n : Nat) :
    lastMark? (ms ++ [m]) phase n
      = if m.phase = phase ∧ m.offset < n then some m.offset else lastMark? ms phase n := by
  rw [lastMark?, List.foldl_append]
  rfl

/-- **The fold picks the last mark of a phase,** and none only if no mark of the phase is in front. -/
theorem lastMark?_spec {ms : List Mark}
    (hms : ms.Pairwise (fun m m' => m.phase = m'.phase → m.offset < m'.offset)) (phase : Phase)
    (n : Nat) :
    (lastMark? ms phase n = none ∧ ∀ k, ⟨phase, k⟩ ∈ ms → n ≤ k)
      ∨ ∃ k, lastMark? ms phase n = some k ∧ IsLast ms phase n k := by
  induction ms using List.reverseRecOn with
  | nil => exact .inl ⟨rfl, by simp⟩
  | append_singleton ms m ih =>
    obtain ⟨hfront, -, hlast⟩ := List.pairwise_append.mp hms
    rw [lastMark?_concat]
    simp only [List.mem_append, List.mem_singleton]
    by_cases hnew : m.phase = phase ∧ m.offset < n
    · -- the marks of a phase ascend, so this one is the last so far
      obtain ⟨rfl, hlt⟩ := hnew
      refine .inr ⟨m.offset, if_pos ⟨rfl, hlt⟩, by simp, hlt, fun k' hk' _ => ?_⟩
      rcases List.mem_append.mp hk' with hk' | hk'
      · exact Nat.le_of_lt (hlast _ hk' m (by simp) rfl)
      · exact Nat.le_of_eq (congrArg Mark.offset (List.mem_singleton.mp hk'))
    · rw [if_neg hnew]
      have hother : ∀ k, (⟨phase, k⟩ : Mark) = m → n ≤ k := by
        rintro k rfl
        exact Nat.not_lt.mp (fun hlt => hnew ⟨rfl, hlt⟩)
      rcases ih hfront with ⟨hnone, hbehind⟩ | ⟨k, hsome, hmem, hbefore, hmax⟩
      · exact .inl ⟨hnone, fun k hk => hk.elim (hbehind k) (hother k)⟩
      · refine .inr ⟨k, hsome, List.mem_append_left _ hmem, hbefore, fun k' hk' hlt => ?_⟩
        rcases List.mem_append.mp hk' with hk' | hk'
        · exact hmax k' hk' hlt
        · exact absurd hlt (Nat.not_lt.mpr (hother k' (List.mem_singleton.mp hk')))

/-- **The last mark of a phase in front of an offset** is the nearest one that the phase has there. -/
theorem lastMark?_eq_some {ms : List Mark}
    (hms : ms.Pairwise (fun m m' => m.phase = m'.phase → m.offset < m'.offset)) {phase : Phase}
    {n k : Nat} : lastMark? ms phase n = some k ↔ IsLast ms phase n k := by
  rcases lastMark?_spec hms phase n with ⟨hnone, hbehind⟩ | ⟨k₀, hsome, hk₀⟩
  · rw [hnone]
    exact ⟨(nomatch ·), fun h => absurd h.before (Nat.not_lt.mpr (hbehind k h.mem))⟩
  · rw [hsome, Option.some.injEq]
    constructor
    · rintro rfl
      exact hk₀
    · exact fun h => Nat.le_antisymm (h.last k₀ hk₀.mem hk₀.before) (hk₀.last k h.mem h.before)

/-! ## The nearest mark -/

/-- The mark starts in front of the offset, and no other mark starts nearer in front of it. -/
structure IsNearest (ms : List Mark) (n : Nat) (m : Mark) : Prop where
  mem : m ∈ ms
  before : m.offset < n
  nearest : ∀ m' ∈ ms, m'.offset < n → m'.offset ≤ m.offset

theorem better?_of_none {ms : List Mark} {n : Nat} {phase : Phase} (h : lastMark? ms phase n = none)
    (best : Option Mark) : better? ms n best phase = best := by
  rw [better?, h]

theorem better?_of_some {ms : List Mark} {n : Nat} {phase : Phase} {k : Nat}
    (h : lastMark? ms phase n = some k) (best : Option Mark) :
    better? ms n best phase = if best.all (fun b => b.offset < k) then some ⟨phase, k⟩ else best := by
  rw [better?, h]

/-- **Phase by phase** the later of two last marks is kept, so that of some phases the latest one is left. -/
theorem foldl_better?_spec (ms : List Mark) (n : Nat) (phases : List Phase) :
    (phases.foldl (better? ms n) none = none ∧ ∀ phase ∈ phases, lastMark? ms phase n = none)
      ∨ ∃ m, phases.foldl (better? ms n) none = some m ∧ lastMark? ms m.phase n = some m.offset
        ∧ ∀ phase ∈ phases, ∀ k, lastMark? ms phase n = some k → k ≤ m.offset := by
  induction phases using List.reverseRecOn with
  | nil => exact .inl ⟨rfl, by simp⟩
  | append_singleton phases phase ih =>
    rw [List.foldl_append, List.foldl_cons, List.foldl_nil]
    simp only [List.mem_append, List.mem_singleton]
    cases hlast : lastMark? ms phase n with
    | none =>
      rw [better?_of_none hlast]
      rcases ih with ⟨hnone, hall⟩ | ⟨m, hsome, hm, hmax⟩
      · exact .inl ⟨hnone, by rintro phase' (h | rfl); exacts [hall phase' h, hlast]⟩
      · refine .inr ⟨m, hsome, hm, ?_⟩
        rintro phase' (h | rfl) k hk
        · exact hmax phase' h k hk
        · rw [hlast] at hk
          cases hk
    | some k₀ =>
      rw [better?_of_some hlast]
      rcases ih with ⟨hnone, hall⟩ | ⟨m, hsome, hm, hmax⟩
      · rw [hnone]
        refine .inr ⟨⟨phase, k₀⟩, rfl, hlast, ?_⟩
        rintro phase' (h | rfl) k hk
        · rw [hall phase' h] at hk
          cases hk
        · rw [hlast] at hk
          exact Nat.le_of_eq (Option.some.inj hk).symm
      · rw [hsome]
        by_cases hlater : m.offset < k₀
        · refine .inr ⟨⟨phase, k₀⟩, if_pos (by simpa using hlater), hlast, ?_⟩
          rintro phase' (h | rfl) k hk
          · exact Nat.le_of_lt (Nat.lt_of_le_of_lt (hmax phase' h k hk) hlater)
          · rw [hlast] at hk
            exact Nat.le_of_eq (Option.some.inj hk).symm
        · refine .inr ⟨m, if_neg (by simpa using hlater), hm, ?_⟩
          rintro phase' (h | rfl) k hk
          · exact hmax phase' h k hk
          · rw [hlast] at hk
            rw [← Option.some.inj hk]
            exact Nat.not_lt.mp hlater

section Marks

variable {ms : List Mark} (hms : ms.Pairwise (fun m m' => m.phase = m'.phase → m.offset < m'.offset))
  {n : Nat}

include hms

/-- **The latest of the last marks is the nearest mark,** and there is none only if no mark is in front. -/
theorem latest?_spec (n : Nat) :
    (latest? ms n = none ∧ ∀ m ∈ ms, n ≤ m.offset) ∨ ∃ m, latest? ms n = some m ∧ IsNearest ms n m := by
  rcases foldl_better?_spec ms n all with ⟨hnone, hall⟩ | ⟨m, hsome, hm, hmax⟩
  · refine .inl ⟨hnone, fun m hm => ?_⟩
    rcases lastMark?_spec hms m.phase n with ⟨-, hbehind⟩ | ⟨k, hk, -⟩
    · exact hbehind m.offset hm
    · rw [hall m.phase (mem_all m.phase)] at hk
      cases hk
  · have hlast := (lastMark?_eq_some hms).mp hm
    refine .inr ⟨m, hsome, hlast.mem, hlast.before, fun m' hm' hlt => ?_⟩
    rcases lastMark?_spec hms m'.phase n with ⟨-, hbehind⟩ | ⟨k, hk, hk'⟩
    · exact absurd hlt (Nat.not_lt.mpr (hbehind m'.offset hm'))
    · exact Nat.le_trans (hk'.last m'.offset hm' hlt) (hmax m'.phase (mem_all m'.phase) k hk)

theorem latest?_eq_none : latest? ms n = none ↔ ∀ m ∈ ms, n ≤ m.offset := by
  rcases latest?_spec hms n with ⟨hnone, hbehind⟩ | ⟨b, hsome, hb⟩
  · exact ⟨fun _ => hbehind, fun _ => hnone⟩
  · rw [hsome]
    refine ⟨(nomatch ·), fun h => ?_⟩
    exact absurd hb.before (Nat.not_lt.mpr (h b hb.mem))

/-- Where no two marks are at one offset, the nearest one is unique. -/
theorem latest?_eq_some (hdistinct : ∀ m ∈ ms, ∀ m' ∈ ms, m.offset = m'.offset → m = m') {m : Mark} :
    latest? ms n = some m ↔ IsNearest ms n m := by
  rcases latest?_spec hms n with ⟨hnone, hbehind⟩ | ⟨b, hsome, hb⟩
  · rw [hnone]
    refine ⟨(nomatch ·), fun h => ?_⟩
    exact absurd h.before (Nat.not_lt.mpr (hbehind m h.mem))
  · rw [hsome, Option.some.injEq]
    constructor
    · rintro rfl
      exact hb
    · intro h
      have hle := hb.nearest m h.mem h.before
      have hge := h.nearest b hb.mem hb.before
      exact hdistinct b hb.mem m h.mem (Nat.le_antisymm hge hle)

/-! ## The phase of an offset -/

theorem at?_eq_none : at? ms n = none ↔ ∀ m ∈ ms, n ≤ m.offset := by
  rw [at?, Option.map_eq_none_iff, latest?_eq_none hms]

theorem at?_eq_some (hdistinct : ∀ m ∈ ms, ∀ m' ∈ ms, m.offset = m'.offset → m = m') {phase : Phase} :
    at? ms n = some phase ↔ ∃ k, IsNearest ms n ⟨phase, k⟩ := by
  rw [at?, Option.map_eq_some_iff]
  constructor
  · rintro ⟨⟨phase, k⟩, hm, rfl⟩
    exact ⟨k, (latest?_eq_some hms hdistinct).mp hm⟩
  · rintro ⟨k, hk⟩
    exact ⟨⟨phase, k⟩, (latest?_eq_some hms hdistinct).mpr hk, rfl⟩

end Marks

/-- The phase stays while no mark is passed. -/
theorem at?_eq_of_no_mark {ms : List Mark} {n n' : Nat} (hle : n ≤ n')
    (hnone : ∀ m ∈ ms, m.offset < n' → m.offset < n) : at? ms n = at? ms n' := by
  have hcongr : ∀ m ∈ ms, m.offset < n ↔ m.offset < n' := fun m hm =>
    ⟨fun hlt => Nat.lt_of_lt_of_le hlt hle, hnone m hm⟩
  have hlast : ∀ phase, lastMark? ms phase n = lastMark? ms phase n' := fun phase =>
    List.foldl_ext _ _ none (fun best m hm => by simp only [hcongr m hm])
  have hlatest : latest? ms n = latest? ms n' :=
    List.foldl_ext _ _ none (fun best phase _ => by rw [better?, better?, hlast])
  rw [at?, at?, hlatest]

/-- The nearest mark of a text, in front of any integer, is the last place at which a marker matches. -/
theorem isNearest_marks {masked : Text} {o : Int} {phase : Phase} {offset : Nat} :
    IsNearest (marks masked) o.toNat ⟨phase, offset⟩
      ↔ phase.marker.MatchesAt masked offset ∧ offset < o
        ∧ ∀ (phase' : Phase) (offset' : Nat), phase'.marker.MatchesAt masked offset' →
            offset' < o → offset' ≤ offset := by
  constructor
  · rintro ⟨hmem, hbefore, hnearest⟩
    refine ⟨mem_marks.mp hmem, Int.lt_toNat.mp hbefore, fun phase' offset' h hlt => ?_⟩
    exact hnearest ⟨phase', offset'⟩ (mem_marks.mpr h) (Int.lt_toNat.mpr hlt)
  · rintro ⟨hmatch, hbefore, hnearest⟩
    refine ⟨mem_marks.mpr hmatch, Int.lt_toNat.mpr hbefore, ?_⟩
    rintro ⟨phase', offset'⟩ hm hlt
    exact hnearest phase' offset' (mem_marks.mp hm) (Int.lt_toNat.mp hlt)

/-- **The phase of an offset is that of the marker nearest in front of it.** No two markers of a masked
script start at the same offset, and the search loses none of them. An offset has no phase if no marker
starts in front of it; otherwise its phase is that of the marker that starts last in front of it. The last
mark of a phase is looked up under the same reading of "in front". So the phase stays where no marker is
passed. An offset may be any integer; one in front of the script stands for its start. -/
theorem at?_nearest (code : Text) :
    let masked := (Source.ofCode code).masked
    let ms := marks masked
    (∀ (phase phase' : Phase) (offset : Nat), phase.marker.MatchesAt masked offset →
        phase'.marker.MatchesAt masked offset → phase = phase')
      ∧ (∀ (phase : Phase) (offset : Nat), (∃ m ∈ phase.marker.findAll masked, m.start = offset)
          ↔ phase.marker.MatchesAt masked offset)
      ∧ (∀ o : Int, at? ms o.toNat = none
          ↔ ∀ (phase : Phase) (offset : Nat), phase.marker.MatchesAt masked offset → o ≤ offset)
      ∧ (∀ (o : Int) (phase : Phase), at? ms o.toNat = some phase
          ↔ ∃ offset : Nat, phase.marker.MatchesAt masked offset ∧ offset < o
            ∧ ∀ (phase' : Phase) (offset' : Nat), phase'.marker.MatchesAt masked offset' →
              offset' < o → offset' ≤ offset)
      ∧ (∀ (o : Int) (phase : Phase) (k : Nat), lastMark? ms phase o.toNat = some k
          ↔ phase.marker.MatchesAt masked k ∧ k < o
            ∧ ∀ k' : Nat, phase.marker.MatchesAt masked k' → k' < o → k' ≤ k)
      ∧ ∀ o o' : Int, o ≤ o' →
          (∀ (phase : Phase) (offset : Nat), phase.marker.MatchesAt masked offset →
            ¬ (o ≤ offset ∧ offset < o')) →
          at? ms o.toNat = at? ms o'.toNat := by
  intro masked ms
  refine ⟨fun _ _ _ => eq_of_matchesAt, fun phase offset => ?_, fun o => ?_, fun o phase => ?_,
    fun o phase k => ?_, fun o o' hle hnone => ?_⟩
  · exact exists_mem_findAll_iff (consumes_marker phase) (separate_marker phase)
  · rw [at?_eq_none (pairwise_marks masked)]
    constructor
    · intro h phase offset hoffset
      have hle := h _ (mem_marks.mpr hoffset)
      exact Int.toNat_le.mp hle
    · rintro h ⟨phase, offset⟩ hm
      exact Int.toNat_le.mpr (h phase offset (mem_marks.mp hm))
  · rw [at?_eq_some (pairwise_marks masked) (distinct_marks masked)]
    exact exists_congr fun offset => isNearest_marks
  · rw [lastMark?_eq_some (pairwise_marks masked)]
    constructor
    · rintro ⟨hmem, hbefore, hlast⟩
      exact ⟨mem_marks.mp hmem, Int.lt_toNat.mp hbefore,
        fun k' hk' hlt => hlast k' (mem_marks.mpr hk') (Int.lt_toNat.mpr hlt)⟩
    · rintro ⟨hmatch, hbefore, hlast⟩
      exact ⟨mem_marks.mpr hmatch, Int.lt_toNat.mpr hbefore,
        fun k' hk' hlt => hlast k' (mem_marks.mp hk') (Int.lt_toNat.mp hlt)⟩
  · refine at?_eq_of_no_mark (Int.toNat_le_toNat hle) ?_
    rintro ⟨phase, offset⟩ hm hlt
    have hout := hnone phase offset (mem_marks.mp hm)
    rw [Int.lt_toNat] at hlt ⊢
    simp only at hlt ⊢
    omega

/-- A marker is not in front of its own start. -/
example : at? (marks (Lexing.mask "State.Configure".toList)) 0 = none
    ∧ at? (marks (Lexing.mask "State.Configure".toList)) 1 = some .configure := by decide

end ChartLint.Phase
