import ChartLint.Proofs.Pattern.Seam
import ChartLint.Proofs.Respacing.Basic

/-!
# Two ways of a pattern

A pattern goes through a script and through the respaced script side by side. The two places it has
reached are *even* when the one is the place of the other. A pattern that takes the carriage return of
a line break is *late*: in the script it is behind the line break, in the respaced script still in
front of the line feed. A run of blanks that stops there, where the script has no place to stop, is a
*stray*. `Pattern.standings` computes which of these a pattern may leave behind, and whether the two
ways can part for good.

The ways that a pattern has through the respaced script are its ways through the script, in the same
order of preference, with strays between them (`woven_ends`). Strays are mostly given up by what
follows, since no word and no sign can be read off a line feed; a pattern that ends even and only even
has the same ways through both.
-/

namespace ChartLint

/-- Where two ways through a script and the respaced script may stand to each other. -/
structure Standings where
  /-- At a place and where it lies in the respaced script. -/
  even : Bool
  /-- Behind a line feed, and in front of it. -/
  late : Bool
  /-- Nowhere in the script, and in front of a line feed. -/
  stray : Bool
  /-- Anywhere else. -/
  lost : Bool
deriving DecidableEq, Repr

namespace Standings

/-- Both ways are even. -/
def onlyEven : Standings :=
  ⟨true, false, false, false⟩

/-- There is a stray and no way in the script. -/
def onlyStray : Standings :=
  ⟨false, false, true, false⟩

/-- What one of two sets of ways allows. -/
def union (S T : Standings) : Standings :=
  ⟨S.even || T.even, S.late || T.late, S.stray || T.stray, S.lost || T.lost⟩

end Standings

namespace Pattern

/-- The standings that a pattern may leave behind when it starts with given ones, if line feeds may
have carriage returns. -/
def standings (returns : Bool) : Pattern → Standings → Standings
  | .empty, S => S
  | .one cls, S =>
    { even := S.even
      late := returns && S.even && cls '\n'
      stray := false
      lost := S.lost || S.late || (S.stray && cls '\n') || (returns && cls '\n' != cls '\r') }
  | .run _ cls, S =>
    let crosses := returns && cls '\n'
    { even := S.even || S.late
      late := false
      stray := (crosses && (S.even || S.late)) || S.stray
      lost := S.lost || (S.late && !crosses) || (S.stray && cls '\n')
        || (returns && cls '\n' != cls '\r') }
  | .seq p q, S => q.standings returns (p.standings returns S)
  | .alt p q, S => (p.standings returns S).union (q.standings returns S)
  | .star p, S =>
    let round := p.standings returns .onlyEven
    let idle := p.standings returns .onlyStray
    { even := S.even
      late := false
      stray := S.stray || round.stray
      lost := S.lost || S.late || round.late || round.lost
        || ((S.stray || round.stray) && (idle.even || idle.late || idle.lost)) }
  | .keep _ p, S =>
    let T := p.standings returns S
    { T with late := false, lost := T.lost || T.late || S.late || S.lost }
  | .edge, S => { even := S.even, late := false, stray := false, lost := S.lost || S.late }
  | .notAfter cls, S =>
    { even := S.even, late := false, stray := S.stray, lost := S.lost || S.late || cls '\n' }
  | .lineStart, S => { even := S.even, late := false, stray := S.stray, lost := S.lost || S.late }
  | .ahead p, S =>
    { even := S.even
      late := false
      stray := S.stray
      lost := S.lost || S.late || decide (p.standings returns .onlyEven ≠ .onlyEven) }
  | .textStart, S | .textEnd, S => { S with lost := true }

@[simp]
theorem standings_append (returns : Bool) (p q : Pattern) (S : Standings) :
    (p ++ q).standings returns S = q.standings returns (p.standings returns S) := by
  show (p.followedBy q).standings returns S = _
  induction p generalizing S with
  | seq a b _ ihb =>
    rw [followedBy, standings, standings, ihb]
  | _ => rfl

/-- What is lost stays lost. -/
theorem lost_of_standings {returns : Bool} {p : Pattern} {S : Standings}
    (h : (p.standings returns S).lost = false) : S.lost = false := by
  induction p generalizing S with
  | seq p q ihp ihq => exact ihp (ihq h)
  | alt p q ihp _ =>
    simp only [standings, Standings.union, Bool.or_eq_false_iff] at h
    exact ihp h.1
  | empty => exact h
  | one | run | star | keep | edge | notAfter | lineStart | ahead =>
    simp only [standings, Bool.or_eq_false_iff] at h
    simp [h]
  | textStart | textEnd => cases h

end Pattern

namespace Respacing

open Text Pattern

variable {r : Respacing} {place : Nat → Nat}

/-! ## Two ways -/

/-- The cursors are even: the one is at the place of the other. -/
structure Even (r : Respacing) (place : Nat → Nat) (c c' : Cursor) : Prop where
  rest : c'.rest = r.inner c.rest
  before : c'.before = c.before ∨ (c.before = none ∧ c'.before = some '\n')
  place : ∀ u v, c.rest = u ++ v → place (c.pos + u.length) = c'.pos + (r.inner u).length
  fits : r.Fits c.rest

/-- The respaced cursor is in front of the line feed that the other one is behind. -/
structure Late (r : Respacing) (place : Nat → Nat) (c c' : Cursor) : Prop where
  returns : r.returns = true
  front : c.before = some '\n'
  even : ∃ c'', Even r place c c'' ∧ c' = ⟨c''.pos - 1, some '\r', '\n' :: c''.rest⟩ ∧ 0 < c''.pos
    ∧ c''.before = some '\n'

/-- The respaced cursor is inside of a line break. -/
def Stray (c' : Cursor) : Prop :=
  c'.before = some '\r' ∧ ∃ v, c'.rest = '\n' :: v

/-- A cursor of the script, if there is one, and a respaced cursor stand to each other in one of the
given ways. -/
inductive Tied (r : Respacing) (place : Nat → Nat) (S : Standings) : Option Cursor → Cursor → Prop where
  | even {c c' : Cursor} (allowed : S.even = true) (h : Even r place c c') : Tied r place S (some c) c'
  | late {c c' : Cursor} (allowed : S.late = true) (h : Late r place c c') : Tied r place S (some c) c'
  | stray {c' : Cursor} (allowed : S.stray = true) (h : Stray c') : Tied r place S none c'

/-- Where a kept part lies in the respaced script. -/
def keptAt (place : Nat → Nat) (part : Slot × Span) : Slot × Span :=
  (part.1, ⟨place part.2.start, place part.2.stop⟩)

/-- The ways through the respaced script are those through the script, in the same order, with strays
between them. -/
inductive Woven (r : Respacing) (place : Nat → Nat) (S : Standings) :
    List Ending → List Ending → Prop where
  | nil : Woven r place S [] []
  | both {e e' : Ending} {es es' : List Ending} (tied : Tied r place S (some e.here) e'.here)
      (kept : e'.kept = e.kept.map (keptAt place)) (others : Woven r place S es es') :
      Woven r place S (e :: es) (e' :: es')
  | stray {e' : Ending} {es es' : List Ending} (tied : Tied r place S none e'.here)
      (others : Woven r place S es es') : Woven r place S es (e' :: es')

/-- One set of ways allows what another allows. -/
def Allows (T S : Standings) : Prop :=
  (S.even = true → T.even = true) ∧ (S.late = true → T.late = true) ∧ (S.stray = true → T.stray = true)

theorem Tied.mono {S T : Standings} (hST : Allows T S) {o : Option Cursor} {c' : Cursor}
    (h : Tied r place S o c') : Tied r place T o c' := by
  cases h with
  | even allowed h => exact .even (hST.1 allowed) h
  | late allowed h => exact .late (hST.2.1 allowed) h
  | stray allowed h => exact .stray (hST.2.2 allowed) h

theorem Woven.mono {S T : Standings} (hST : Allows T S) {es es' : List Ending}
    (h : Woven r place S es es') : Woven r place T es es' := by
  induction h with
  | nil => exact .nil
  | both tied kept _ ih => exact .both (tied.mono hST) kept ih
  | stray tied _ ih => exact .stray (tied.mono hST) ih

theorem allows_union_left (S T : Standings) : Allows (S.union T) S := by
  simp only [Allows, Standings.union, Bool.or_eq_true]
  exact ⟨.inl, .inl, .inl⟩

theorem allows_union_right (S T : Standings) : Allows (S.union T) T := by
  simp only [Allows, Standings.union, Bool.or_eq_true]
  exact ⟨.inr, .inr, .inr⟩

theorem Woven.append {S : Standings} {es es' fs fs' : List Ending} (h : Woven r place S es es')
    (hf : Woven r place S fs fs') : Woven r place S (es ++ fs) (es' ++ fs') := by
  induction h with
  | nil => exact hf
  | both tied kept _ ih => exact .both tied kept ih
  | stray tied _ ih => exact .stray tied ih

theorem Woven.reverse {S : Standings} {es es' : List Ending} (h : Woven r place S es es') :
    Woven r place S es.reverse es'.reverse := by
  induction h with
  | nil => exact .nil
  | both tied kept _ ih =>
    rw [List.reverse_cons, List.reverse_cons]
    exact ih.append (.both tied kept .nil)
  | stray tied _ ih =>
    rw [List.reverse_cons]
    have h := ih.append (.stray tied .nil)
    rwa [List.append_nil] at h

theorem Woven.map_andThen {S : Standings} {e e' : Ending} (hkept : e'.kept = e.kept.map (keptAt place))
    {es es' : List Ending} (h : Woven r place S es es') :
    Woven r place S (es.map e.andThen) (es'.map e'.andThen) := by
  induction h with
  | nil => exact .nil
  | both tied kept _ ih =>
    refine .both tied ?_ ih
    rw [Ending.andThen, Ending.andThen, hkept, kept, List.map_append]
  | stray tied _ ih => exact .stray tied ih

/-- Only strays are woven into nothing. -/
theorem woven_nil {S : Standings} {es' : List Ending} :
    Woven r place S [] es' ↔ ∀ e' ∈ es', Tied r place S none e'.here := by
  constructor
  · intro h
    generalize hnil : ([] : List Ending) = es at h
    induction h with
    | nil => exact fun e' he' => absurd he' List.not_mem_nil
    | both => cases hnil
    | stray tied _ ih => exact List.forall_mem_cons.mpr ⟨tied, ih hnil⟩
  · intro h
    induction es' with
    | nil => exact .nil
    | cons e' es' ih =>
      exact .stray (h e' List.mem_cons_self) (ih (fun f hf => h f (List.mem_cons_of_mem e' hf)))

/-- Going on from the ways that are woven together. -/
theorem Woven.andThen {S T : Standings} {q q' : Cursor → List Ending} {es es' : List Ending}
    (h : Woven r place S es es')
    (hboth : ∀ e ∈ es, ∀ e' ∈ es', Tied r place S (some e.here) e'.here →
      Woven r place T (q e.here) (q' e'.here))
    (hstray : ∀ e' ∈ es', Tied r place S none e'.here → Woven r place T [] (q' e'.here)) :
    Woven r place T (es.flatMap (fun e => (q e.here).map e.andThen))
      (es'.flatMap (fun e => (q' e.here).map e.andThen)) := by
  induction h with
  | nil => exact .nil
  | @both e e' es es' tied kept _ ih =>
    rw [List.flatMap_cons, List.flatMap_cons]
    have hfirst := hboth e List.mem_cons_self e' List.mem_cons_self tied
    refine (hfirst.map_andThen kept).append (ih ?_ ?_)
    · exact fun f hf f' hf' => hboth f (List.mem_cons_of_mem e hf) f' (List.mem_cons_of_mem e' hf')
    · exact fun f' hf' => hstray f' (List.mem_cons_of_mem e' hf')
  | @stray e' es es' tied _ ih =>
    rw [List.flatMap_cons]
    have hfirst := woven_nil.mp (hstray e' List.mem_cons_self tied)
    have hmapped : Woven r place T [] ((q' e'.here).map e'.andThen) := by
      rw [woven_nil]
      intro f hf
      obtain ⟨g, hg, rfl⟩ := List.mem_map.mp hf
      exact hfirst g hg
    refine hmapped.append (ih ?_ ?_)
    · exact fun f hf f' hf' => hboth f hf f' (List.mem_cons_of_mem e' hf')
    · exact fun f' hf' => hstray f' (List.mem_cons_of_mem e' hf')

/-- A test that tied ways pass together. -/
theorem Woven.filter {S : Standings} {f f' : Ending → Bool} {es es' : List Ending}
    (h : Woven r place S es es')
    (hf : ∀ e e' : Ending, Tied r place S (some e.here) e'.here → f e = f' e') :
    Woven r place S (es.filter f) (es'.filter f') := by
  induction h with
  | nil => exact .nil
  | @both e e' es es' tied kept _ ih =>
    rw [List.filter_cons, List.filter_cons, hf e e' tied]
    split
    · exact .both tied kept ih
    · exact ih
  | @stray e' es es' tied _ ih =>
    rw [List.filter_cons]
    split
    · exact .stray tied ih
    · exact ih

/-! ## One step -/

theorem Even.place_here {c c' : Cursor} (h : Even r place c c') : place c.pos = c'.pos := by
  have hplace := h.place [] c.rest rfl
  simpa using hplace

theorem Even.next {pos pos' : Nat} {x x' : Option Char} {c : Char} {t : Text}
    (h : Even r place ⟨pos, x, c :: t⟩ ⟨pos', x', r.inner (c :: t)⟩) :
    Even r place ⟨pos + 1, some c, t⟩ ⟨pos' + (r.spelling c).length, some c, r.inner t⟩ where
  rest := rfl
  before := .inl rfl
  fits := h.fits.tail
  place := by
    intro u v huv
    have hsplit : c :: t = (c :: u) ++ v := congrArg (c :: ·) huv
    have hplace := h.place (c :: u) v hsplit
    have hlength : (r.inner (c :: u)).length = (r.spelling c).length + (r.inner u).length := by
      rw [inner_cons, List.length_append]
    have hpos : pos + (u.length + 1) = pos + 1 + u.length := by omega
    simp only [List.length_cons, hlength, hpos] at hplace ⊢
    omega

/-- The standings behind a run that may cross line breaks. -/
theorem woven_reach {cls : Char → Bool} (hcls : r.returns = true → cls '\n' = cls '\r') {c c' : Cursor}
    (h : Even r place c c') :
    Woven r place ⟨true, false, r.returns && cls '\n', false⟩
      ((Cursor.reach cls c.pos c.before c.rest).map .plain)
      ((Cursor.reach cls c'.pos c'.before c'.rest).map .plain) := by
  obtain ⟨pos, x, t⟩ := c
  obtain ⟨pos', x', t'⟩ := c'
  obtain rfl : t' = r.inner t := h.rest
  -- by induction on what is ahead: the run stops here, or takes one more character and goes on
  induction t generalizing pos pos' x x' with
  | nil => exact .both (.even rfl h) rfl .nil
  | cons c t ih =>
    have hnext := h.next
    simp only at ih ⊢
    by_cases hc : c = '\n'
    · subst hc
      cases hr : r.returns with
      | true =>
        have hreturn : cls '\r' = cls '\n' := (hcls hr).symm
        have hspelling := spelling_feed_of_returns hr
        have hrest : r.inner ('\n' :: t) = '\r' :: '\n' :: r.inner t := by
          rw [inner_cons, hspelling]
          rfl
        rw [hspelling] at hnext
        rw [hrest] at h ⊢
        rw [Cursor.reach, Cursor.reach, Cursor.reach, hreturn, List.map_cons, List.map_cons]
        refine .both (.even rfl (by rw [← hrest] at h ⊢; exact h)) rfl ?_
        cases hfeed : cls '\n' with
        | false => exact .nil
        | true =>
          simp only [if_true, List.map_cons, Bool.true_and]
          -- between the return and the feed the respaced text has a standing that the script lacks
          refine .stray (.stray rfl ⟨rfl, _, rfl⟩) ?_
          have hothers := ih _ _ _ _ hnext
          rwa [hr, hfeed] at hothers
      | false =>
        have hspelling := spelling_feed_of_not_returns hr
        have hrest : r.inner ('\n' :: t) = '\n' :: r.inner t := by
          rw [inner_cons, hspelling]
          rfl
        rw [hspelling] at hnext
        rw [hrest] at h ⊢
        rw [Cursor.reach, Cursor.reach, List.map_cons, List.map_cons]
        refine .both (.even rfl (by rw [← hrest] at h ⊢; exact h)) rfl ?_
        cases hfeed : cls '\n' with
        | false => exact .nil
        | true =>
          have hothers := ih _ _ _ _ hnext
          rwa [hr, hfeed] at hothers
    · have hspelling := spelling_of_ne (r := r) hc
      rw [hspelling] at hnext
      rw [inner_cons_of_ne hc] at h ⊢
      rw [Cursor.reach, Cursor.reach, List.map_cons, List.map_cons]
      refine .both (.even rfl (by rw [← inner_cons_of_ne hc] at h ⊢; exact h)) rfl ?_
      cases cls c with
      | false => exact .nil
      | true => exact ih _ _ _ _ hnext

/-- The standings behind one character. -/
theorem woven_one {cls : Char → Bool} (hcls : r.returns = true → cls '\n' = cls '\r') {c c' : Cursor}
    (h : Even r place c c') :
    Woven r place ⟨true, r.returns && cls '\n', false, false⟩ ((Pattern.one cls).ends c)
      ((Pattern.one cls).ends c') := by
  obtain ⟨pos, x, t⟩ := c
  obtain ⟨pos', x', t'⟩ := c'
  obtain rfl : t' = r.inner t := h.rest
  cases t with
  | nil => exact .nil
  | cons c t =>
    have hnext := h.next
    by_cases hc : c = '\n'
    · subst hc
      cases hr : r.returns with
      | true =>
        have hspelling := spelling_feed_of_returns hr
        rw [hspelling] at hnext
        simp only [ends, inner_cons, hspelling, List.cons_append, ← hcls hr]
        cases hfeed : cls '\n' with
        | false => exact .nil
        -- only the return is read, so the respaced text still has its feed ahead
        | true => exact .both (.late rfl ⟨hr, rfl, _, hnext, rfl, Nat.succ_pos _, rfl⟩) rfl .nil
      | false =>
        have hspelling := spelling_feed_of_not_returns hr
        rw [hspelling] at hnext
        simp only [ends, inner_cons, hspelling, List.cons_append]
        cases hfeed : cls '\n' with
        | false => exact .nil
        | true => exact .both (.even rfl hnext) rfl .nil
    · have hspelling := spelling_of_ne (r := r) hc
      rw [hspelling] at hnext
      simp only [ends, inner_cons, hspelling, List.cons_append]
      cases cls c with
      | false => exact .nil
      | true => exact .both (.even rfl hnext) rfl .nil

/-- An assertion that holds of both cursors or of none. -/
theorem woven_if {S : Standings} {b b' : Bool} {c c' : Cursor} (htied : Tied r place S (some c) c')
    (hb : b = b') :
    Woven r place S (if b then [.plain c] else []) (if b' then [.plain c'] else []) := by
  subst hb
  cases b with
  | false => exact .nil
  | true => exact .both htied rfl .nil

/-- Ways that end even end together. -/
theorem Woven.isEmpty_eq {es es' : List Ending} (h : Woven r place .onlyEven es es') :
    es'.isEmpty = es.isEmpty := by
  cases h with
  | nil => rfl
  | both => rfl
  | stray tied _ =>
    cases tied with
    | stray allowed _ => cases allowed

theorem Even.isAfter {c c' : Cursor} (h : Even r place c c') {cls : Char → Bool}
    (hcls : cls '\n' = false) : c'.isAfter cls = c.isAfter cls := by
  rw [Cursor.isAfter, Cursor.isAfter]
  rcases h.before with hb | ⟨hb, hb'⟩
  · rw [hb]
  · rw [hb, hb']
    exact hcls

theorem Even.isBefore {c c' : Cursor} (h : Even r place c c') {cls : Char → Bool}
    (hfeed : cls '\n' = false) (hreturn : cls '\r' = false) : c'.isBefore cls = c.isBefore cls := by
  rw [Cursor.isBefore, Cursor.isBefore, h.rest]
  cases c.rest with
  | nil => rfl
  | cons x t =>
    by_cases hx : x = '\n'
    · subst hx
      rw [inner_cons_feed, lineEnd]
      split
      · exact hreturn.trans hfeed.symm
      · rfl
    · rw [inner_cons_of_ne hx]
      rfl

/-! ## Repetition -/

theorem rest_length_of_moved {p : Pattern} {c : Cursor} {e : Ending} (he : e ∈ p.ends c)
    (hmoved : c.pos < e.here.pos) : e.here.rest.length < c.rest.length := by
  obtain ⟨w, rest, hrest, -, hhere⟩ := accepts_of_mem_ends he
  rw [hhere] at hmoved ⊢
  simp only at hmoved
  rw [hrest, List.length_append]
  simp only
  omega

/-- At the end of a text no round moves on. -/
theorem repeated_of_rest_nil {p : Pattern} {c : Cursor} (hc : c.rest = []) (bound : Nat) :
    repeated p.ends bound c = [.plain c] := by
  cases bound with
  | zero => rfl
  | succ bound =>
    have hnone : (p.ends c).filter (fun e => c.pos < e.here.pos) = [] := by
      rw [List.filter_eq_nil_iff]
      intro e he hmoved
      have hlength := rest_length_of_moved he (of_decide_eq_true hmoved)
      rw [hc] at hlength
      exact absurd hlength (Nat.not_lt_zero _)
    rw [repeated, hnone]
    rfl

section Repeated

variable {p : Pattern} {T U : Standings}

/-- From a stray, rounds lead to strays. -/
theorem woven_repeated_stray (hidle : ∀ c', Stray c' → ∀ e' ∈ p.ends c', Stray e'.here)
    (hU : U.stray = true) {c' : Cursor} (hc : Stray c') (bound : Nat) :
    Woven r place U [] (repeated p.ends bound c') := by
  rw [woven_nil]
  induction bound generalizing c' with
  | zero =>
    intro e' he'
    rw [repeated, List.mem_singleton] at he'
    rw [he']
    exact .stray hU hc
  | succ bound ih =>
    intro e' he'
    simp only [repeated, List.mem_append, List.mem_flatMap, List.mem_filter, List.mem_map,
      List.mem_singleton] at he'
    rcases he' with ⟨e₁, ⟨h₁, -⟩, e₂, h₂, rfl⟩ | rfl
    · exact ih (hidle c' hc e₁ h₁) e₂ h₂
    · exact .stray hU hc

/-- **Rounds stay even** if one round does. -/
theorem woven_repeated (hmono : StrictMono place)
    (hround : ∀ c c', Even r place c c' → Woven r place T (p.ends c) (p.ends c'))
    (hlate : T.late = false)
    (hidle : T.stray = true → ∀ c', Stray c' → ∀ e' ∈ p.ends c', Stray e'.here)
    (heven : U.even = true) (hstray : T.stray = true → U.stray = true) {c c' : Cursor}
    (h : Even r place c c') {bound bound' : Nat} (hbound : c.rest.length ≤ bound)
    (hbound' : c'.rest.length ≤ bound') :
    Woven r place U (repeated p.ends bound c) (repeated p.ends bound' c') := by
  have hplain : ∀ {c c' : Cursor}, Even r place c c' → Woven r place U [.plain c] [.plain c'] :=
    fun h => .both (.even heven h) rfl .nil
  have hnil : ∀ {c c' : Cursor}, Even r place c c' → (c.rest = [] ↔ c'.rest = []) := by
    intro c c' h
    rw [h.rest]
    constructor
    · intro hc
      rw [hc, inner_nil]
    · intro hc
      have hlength := r.length_inner c.rest
      rw [hc] at hlength
      exact List.length_eq_zero_iff.mp (by simp at hlength; omega)
  induction bound' generalizing bound c c' with
  | zero =>
    have hc' : c'.rest = [] := List.length_eq_zero_iff.mp (Nat.le_zero.mp hbound')
    rw [repeated_of_rest_nil ((hnil h).mpr hc'), repeated_of_rest_nil hc']
    exact hplain h
  | succ bound' ih =>
    cases bound with
    | zero =>
      have hc : c.rest = [] := List.length_eq_zero_iff.mp (Nat.le_zero.mp hbound)
      rw [repeated_of_rest_nil hc, repeated_of_rest_nil ((hnil h).mp hc)]
      exact hplain h
    | succ bound =>
      rw [repeated, repeated]
      refine Woven.append ?_ (hplain h)
      -- the rounds that move on are the same, since places are ordered like offsets
      have hmoved : ∀ e e' : Ending, Tied r place T (some e.here) e'.here →
          decide (c.pos < e.here.pos) = decide (c'.pos < e'.here.pos) := by
        intro e e' htied
        cases htied with
        | even _ heven' =>
          rw [← h.place_here, ← heven'.place_here]
          exact decide_eq_decide.mpr hmono.lt_iff_lt.symm
        | late allowed _ =>
          rw [hlate] at allowed
          cases allowed
      refine ((hround c c' h).filter hmoved).andThen ?_ ?_
      · intro e he e' he' htied
        obtain ⟨hmem, hlt⟩ := List.mem_filter.mp he
        obtain ⟨hmem', hlt'⟩ := List.mem_filter.mp he'
        have hlength := rest_length_of_moved hmem (of_decide_eq_true hlt)
        have hlength' := rest_length_of_moved hmem' (of_decide_eq_true hlt')
        cases htied with
        | even _ heven' => exact ih heven' (by omega) (by omega)
        | late allowed _ =>
          rw [hlate] at allowed
          cases allowed
      · intro e' _ htied
        cases htied with
        | stray allowed hstray' =>
          exact woven_repeated_stray (hidle allowed) (hstray allowed) hstray' bound'

end Repeated

/-! ## All patterns -/

/-- The two ways of a pattern stand to each other as computed, unless they part for good. -/
def WovenEnds (r : Respacing) (place : Nat → Nat) (p : Pattern) : Prop :=
  ∀ {S : Standings} {o : Option Cursor} {c' : Cursor}, (p.standings r.returns S).lost = false →
    Tied r place S o c' → Woven r place (p.standings r.returns S) (o.elim [] p.ends) (p.ends c')

theorem wovenEnds_empty : WovenEnds r place .empty := by
  intro S o c' _ h
  cases h with
  | even allowed h => exact .both (.even allowed h) rfl .nil
  | late allowed h => exact .both (.late allowed h) rfl .nil
  | stray allowed h => exact .stray (.stray allowed h) .nil

theorem wovenEnds_one (cls : Char → Bool) : WovenEnds r place (.one cls) := by
  intro S o c' hlost h
  simp only [standings, Bool.or_eq_false_iff] at hlost
  obtain ⟨⟨⟨-, hlate⟩, hstray⟩, hcls⟩ := hlost
  have hcls' : r.returns = true → cls '\n' = cls '\r' := by
    intro hr
    simpa [hr] using hcls
  cases h with
  | even allowed h =>
    refine (woven_one hcls' h).mono ?_
    simp [Allows, standings, allowed]
  | late allowed h =>
    rw [hlate] at allowed
    cases allowed
  | stray allowed h =>
    obtain ⟨-, v, hv⟩ := h
    have hfeed : cls '\n' = false := by simpa [allowed] using hstray
    simp only [Option.elim, ends, hv, hfeed]
    exact .nil

/-- The places that a run reaches, the nearest first. -/
theorem woven_reach_of_tied {greed : Greed} {cls : Char → Bool} {S : Standings} {o : Option Cursor}
    {c' : Cursor} (hlost : ((Pattern.run greed cls).standings r.returns S).lost = false)
    (h : Tied r place S o c') :
    Woven r place ((Pattern.run greed cls).standings r.returns S)
      ((o.elim [] (fun c => Cursor.reach cls c.pos c.before c.rest)).map .plain)
      ((Cursor.reach cls c'.pos c'.before c'.rest).map .plain) := by
  simp only [standings, Bool.or_eq_false_iff] at hlost
  obtain ⟨⟨⟨-, hlate⟩, hstray⟩, hcls⟩ := hlost
  have hcls' : r.returns = true → cls '\n' = cls '\r' := by
    intro hr
    simpa [hr] using hcls
  cases h with
  | even allowed h =>
    refine (woven_reach hcls' h).mono ?_
    simp +contextual [Allows, standings, allowed]
  | late allowed h =>
    -- the first place of the respaced run is in front of the line feed, the others are even
    obtain ⟨hr, -, c'', heven, rfl, hpos, hbefore⟩ := h
    have hfeed : cls '\n' = true := by simpa [allowed, hr] using hlate
    have hothers := woven_reach hcls' heven
    rw [hbefore] at hothers
    rw [Cursor.reach, if_pos hfeed, List.map_cons, Nat.sub_add_cancel hpos]
    refine .stray (.stray ?_ ⟨rfl, _, rfl⟩) (hothers.mono ?_)
    · simp [standings, allowed, hr, hfeed]
    · simp +contextual [Allows, standings, allowed]
  | stray allowed h =>
    have hkeep := h
    obtain ⟨-, v, hv⟩ := h
    have hfeed : cls '\n' = false := by simpa [allowed] using hstray
    rw [hv, Cursor.reach, hfeed]
    refine .stray (.stray ?_ ?_) .nil
    · simp [standings, allowed]
    · rw [← hv]
      exact hkeep

theorem wovenEnds_run (greed : Greed) (cls : Char → Bool) : WovenEnds r place (.run greed cls) := by
  intro S o c' hlost h
  have hreach := woven_reach_of_tied hlost h
  cases greed with
  | reluctant =>
    cases o with
    | none => exact hreach
    | some c => exact hreach
  | eager =>
    have hback := hreach.reverse
    rw [← List.map_reverse, ← List.map_reverse] at hback
    cases o with
    | none => exact hback
    | some c => exact hback

theorem wovenEnds_seq {p q : Pattern} (hp : WovenEnds r place p) (hq : WovenEnds r place q) :
    WovenEnds r place (.seq p q) := by
  intro S o c' hlost h
  have hfirst := hp (lost_of_standings hlost) h
  cases o with
  | none =>
    refine hfirst.andThen (q := q.ends) ?_ ?_
    · exact fun e he => absurd he List.not_mem_nil
    · exact fun e' _ htied => hq hlost htied
  | some c =>
    refine hfirst.andThen ?_ ?_
    · exact fun e _ e' _ htied => hq hlost htied
    · exact fun e' _ htied => hq hlost htied

theorem wovenEnds_alt {p q : Pattern} (hp : WovenEnds r place p) (hq : WovenEnds r place q) :
    WovenEnds r place (.alt p q) := by
  intro S o c' hlost h
  simp only [standings, Standings.union, Bool.or_eq_false_iff] at hlost
  have hleft := (hp hlost.1 h).mono (allows_union_left _ (q.standings r.returns S))
  have hright := (hq hlost.2 h).mono (allows_union_right (p.standings r.returns S) _)
  cases o with
  | none => exact hleft.append hright
  | some c => exact hleft.append hright

theorem wovenEnds_star (hmono : StrictMono place) {p : Pattern} (hp : WovenEnds r place p) :
    WovenEnds r place (.star p) := by
  intro S o c' hlost h
  simp only [standings, Bool.or_eq_false_iff] at hlost
  obtain ⟨⟨⟨⟨-, hlate⟩, hroundLate⟩, hroundLost⟩, hidleLost⟩ := hlost
  have hidle : S.stray = true ∨ (p.standings r.returns .onlyEven).stray = true →
      ∀ c', Stray c' → ∀ e' ∈ p.ends c', Stray e'.here := by
    intro hstray c' hc' e' he'
    simp only [Bool.and_eq_false_imp, Bool.or_eq_true, Bool.or_eq_false_iff] at hidleLost
    have hwoven := hp (hidleLost hstray).2 (o := none) (.stray rfl hc')
    cases woven_nil.mp hwoven e' he' with
    | stray _ hstray => exact hstray
  cases h with
  | even allowed h =>
    refine woven_repeated hmono (fun c c' hc => hp hroundLost (.even rfl hc)) hroundLate
      (fun hround => hidle (.inr hround)) ?_ ?_ h (Nat.le_refl _) (Nat.le_refl _)
    · exact allowed
    · intro hround
      simp [standings, hround]
  | late allowed h =>
    rw [hlate] at allowed
    cases allowed
  | stray allowed h =>
    refine woven_repeated_stray (hidle (.inl allowed)) ?_ h _
    simp [standings, allowed]

/-- What is kept between even places is kept where it lies in the respaced script. -/
theorem Woven.keep {S T : Standings} (hlate : S.late = false)
    (hT : T = { S with late := false, lost := T.lost }) {slot : Slot} {pos pos' : Nat}
    (hpos : place pos = pos') {es es' : List Ending} (h : Woven r place S es es') :
    Woven r place T (es.map (fun e => ⟨e.here, (slot, ⟨pos, e.here.pos⟩) :: e.kept⟩))
      (es'.map (fun e => ⟨e.here, (slot, ⟨pos', e.here.pos⟩) :: e.kept⟩)) := by
  induction h with
  | nil => exact .nil
  | both tied kept _ ih =>
    cases tied with
    | even allowed heven =>
      refine .both (.even (by rw [hT]; exact allowed) heven) ?_ ih
      simp only [kept, List.map_cons, keptAt, hpos, heven.place_here]
    | late allowed _ =>
      rw [hlate] at allowed
      cases allowed
  | stray tied _ ih =>
    cases tied with
    | stray allowed hstray => exact .stray (.stray (by rw [hT]; exact allowed) hstray) ih

theorem wovenEnds_keep (slot : Slot) {p : Pattern} (hp : WovenEnds r place p) :
    WovenEnds r place (.keep slot p) := by
  intro S o c' hlost h
  simp only [standings, Bool.or_eq_false_iff] at hlost
  obtain ⟨⟨⟨hplost, hlate⟩, hSlate⟩, -⟩ := hlost
  have hwoven := hp hplost h
  cases h with
  | even allowed h => exact hwoven.keep hlate rfl h.place_here
  | late allowed h =>
    rw [hSlate] at allowed
    cases allowed
  | stray allowed h =>
    have hstrays := woven_nil.mp hwoven
    refine woven_nil.mpr (fun e' he' => ?_)
    obtain ⟨f, hf, rfl⟩ := List.mem_map.mp he'
    cases hstrays f hf with
    | stray allowed' hstray => exact .stray allowed' hstray

/-- **An assertion** of which even cursors are both or neither keeps or drops their ways together. -/
theorem woven_assertion {p : Pattern} (holds : Cursor → Bool)
    (hends : ∀ c, p.ends c = if holds c then [.plain c] else []) {S T : Standings}
    (heven : S.even = true → T.even = true) (hlate : S.late = false)
    (hholds : ∀ {c c'}, Even r place c c' → holds c = holds c')
    (hstray : ∀ {c'}, S.stray = true → Stray c' → holds c' = true → T.stray = true) {o : Option Cursor}
    {c' : Cursor} (h : Tied r place S o c') : Woven r place T (o.elim [] p.ends) (p.ends c') := by
  cases h with
  | even allowed h =>
    rw [hends, Option.elim, hends]
    exact woven_if (.even (heven allowed) h) (hholds h)
  | late allowed h =>
    rw [hlate] at allowed
    cases allowed
  | stray allowed h =>
    rw [hends]
    cases hc : holds c' with
    | false => exact .nil
    | true => exact .stray (.stray (hstray allowed h hc) h) .nil

theorem wovenEnds_edge : WovenEnds r place .edge := by
  intro S o c' hlost h
  simp only [standings, Bool.or_eq_false_iff] at hlost
  refine woven_assertion (fun c => c.isAfter isWord != c.isBefore isWord) (fun _ => rfl) ?_ hlost.2 ?_ ?_ h
  · exact id
  · intro c c' h
    rw [h.isAfter (by decide), h.isBefore (by decide) (by decide)]
  · intro c' _ h hholds
    obtain ⟨hbefore, v, hv⟩ := h
    rw [Cursor.isAfter, Cursor.isBefore, hbefore, hv] at hholds
    cases hholds

theorem wovenEnds_notAfter (cls : Char → Bool) : WovenEnds r place (.notAfter cls) := by
  intro S o c' hlost h
  simp only [standings, Bool.or_eq_false_iff] at hlost
  refine woven_assertion (fun c => !c.isAfter cls) ?_ ?_ hlost.1.2 ?_ ?_ h
  · intro c
    rw [ends]
    cases c.isAfter cls <;> rfl
  · exact id
  · intro c c' h
    rw [h.isAfter hlost.2]
  · exact fun hS _ _ => hS

theorem wovenEnds_lineStart : WovenEnds r place .lineStart := by
  intro S o c' hlost h
  simp only [standings, Bool.or_eq_false_iff] at hlost
  refine woven_assertion (fun c => c.before.all (· == '\n')) (fun _ => rfl) ?_ hlost.2 ?_ ?_ h
  · exact id
  · intro c c' h
    rcases h.before with hb | ⟨hb, hb'⟩
    · rw [hb]
    · rw [hb, hb']
      rfl
  · exact fun hS _ _ => hS

theorem wovenEnds_ahead {p : Pattern} (hp : WovenEnds r place p) : WovenEnds r place (.ahead p) := by
  intro S o c' hlost h
  simp only [standings, Bool.or_eq_false_iff, decide_eq_false_iff_not, not_not] at hlost
  obtain ⟨⟨-, hlate⟩, honly⟩ := hlost
  refine woven_assertion (fun c => !(p.ends c).isEmpty) ?_ ?_ hlate ?_ ?_ h
  · intro c
    rw [ends]
    cases (p.ends c).isEmpty <;> rfl
  · exact id
  · intro c c' h
    have hwoven := hp (S := .onlyEven) (by rw [honly]; rfl) (.even rfl h)
    rw [honly] at hwoven
    have heq := hwoven.isEmpty_eq
    rw [Option.elim] at heq
    rw [heq]
  · exact fun hS _ _ => hS

/-- **The two ways of a pattern** stand to each other as computed. -/
theorem woven_ends (hmono : StrictMono place) {p : Pattern} {S : Standings}
    (hlost : (p.standings r.returns S).lost = false) {o : Option Cursor} {c' : Cursor}
    (h : Tied r place S o c') :
    Woven r place (p.standings r.returns S) (o.elim [] p.ends) (p.ends c') := by
  suffices hp : WovenEnds r place p from hp hlost h
  clear hlost h
  induction p with
  | empty => exact wovenEnds_empty
  | one cls => exact wovenEnds_one cls
  | run greed cls => exact wovenEnds_run greed cls
  | seq p q hp hq => exact wovenEnds_seq hp hq
  | alt p q hp hq => exact wovenEnds_alt hp hq
  | star p hp => exact wovenEnds_star hmono hp
  | keep slot p hp => exact wovenEnds_keep slot hp
  | edge => exact wovenEnds_edge
  | notAfter cls => exact wovenEnds_notAfter cls
  | lineStart => exact wovenEnds_lineStart
  | ahead p hp => exact wovenEnds_ahead hp
  | textStart => exact fun hlost _ => absurd hlost (by simp [standings])
  | textEnd => exact fun hlost _ => absurd hlost (by simp [standings])

end Respacing

end ChartLint
