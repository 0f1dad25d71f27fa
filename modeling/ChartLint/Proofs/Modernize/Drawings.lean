import ChartLint.Proofs.Modernize.Imports
import ChartLint.Proofs.Text.Edits

/-!
# Drawing calls replaced at once

The drawing calls of the previous release are replaced shape by shape, each time in a fresh mask of the
script so far. Here it is shown that this is one replacement of all the calls that the first mask has
(`fixDrawings_at_once`). The mask is laid out in pieces, with a drawing call behind each (`Calls`). A
pass finds the calls of its shape wherever the calls of other shapes have been replaced already
(`findAllFrom_layout`), so all that a pass changes is how the calls of its shape are spelled
(`Stage.apply`).
-/

namespace ChartLint

/-! ## Searching along a text -/

namespace Pattern

open Text

/-- A search passes over a text in which no match starts. -/
theorem findAllFrom_append {p : Pattern} {resume pos : Nat} {x : Option Char} {g t : Text}
    (hresume : resume ≤ pos) (h : ¬ p.Begins x g t) :
    p.findAllFrom resume pos x (g ++ t)
      = p.findAllFrom resume (pos + g.length) (lastOr x g) t := by
  induction g generalizing pos x with
  | nil => rfl
  | cons c g ih =>
    rw [begins_cons, not_or] at h
    rw [List.cons_append, findAllFrom, if_neg (by omega), matchAt?_eq_none.mpr h.1]
    show p.findAllFrom resume (pos + 1) (some c) (g ++ t) = _
    rw [ih (by omega) h.2, List.length_cons, lastOr_cons, Nat.add_assoc, Nat.add_comm 1]

/-- A search goes on behind the match that it finds. -/
theorem findAllFrom_of_matchAt? {p : Pattern} {resume pos : Nat} {x : Option Char} {w r : Text}
    {m : Match} (hresume : resume ≤ pos) (hne : w ≠ [])
    (hm : p.matchAt? ⟨pos, x, w ++ r⟩ = some m) (hstop : m.stop = pos + w.length) :
    p.findAllFrom resume pos x (w ++ r)
      = m :: p.findAllFrom m.stop (pos + w.length) (lastOr x w) r := by
  obtain ⟨c, w, rfl⟩ := List.exists_cons_of_ne_nil hne
  rw [List.cons_append] at hm
  rw [List.length_cons] at hstop
  have hskip := findAllFrom_skip p m.stop (some c) w r (pos + 1) (by omega)
  rw [List.cons_append, findAllFrom, if_neg (by omega), hm, List.length_cons, ← hstop]
  show m :: p.findAllFrom m.stop (pos + 1) (some c) (w ++ r) = _
  rw [hskip]
  rfl

end Pattern

namespace Modernize

open Pattern Lexing Text Source

/-! ## Where a drawing call starts -/

/-- A drawing call starts with its name, in front of a parenthesis. -/
theorem startsAt_drawingCall {shape : String} {x : Option Char} {t : Text} :
    (drawingCall shape).StartsAt x t ↔ x.any isPathChar = false
      ∧ ∃ r, t = "Draw".toList ++ shape.toList ++ r ∧ firstInk r = some '(' := by
  constructor
  · rintro ⟨w, r, rfl, hacc⟩
    obtain ⟨hfront, _, rfl, _, rfl, s, _, rfl, hs, -, _, rfl, rfl⟩ := accepts_drawingCall.mp hacc
    refine ⟨hfront, s ++ ('(' :: r), by simp, ?_⟩
    rw [firstInk_append_of_isBlank hs]
    rfl
  · rintro ⟨hfront, r, rfl, hparen⟩
    obtain ⟨-, s, r', rfl, hs⟩ := List.find?_eq_some_iff_append.mp hparen
    refine ⟨"Draw".toList ++ (shape.toList ++ (s ++ ['('])), r', by simp, ?_⟩
    refine accepts_drawingCall.mpr ⟨hfront, _, rfl, _, rfl, s, _, rfl, ?_, by simp, [], rfl, rfl⟩
    intro c hc
    simpa using hs c hc

/-- What is computed about the names of the shapes, all of it at once: they are words, and no drawing
call starts inside of another one or goes on in it. -/
theorem calls_checked : ∀ shape ∈ drawnShapes,
    (shape.toList.all isPathChar = true ∧ shape.toList.all isVisible = true)
    ∧ ((drawingCall shape).isLocal = true ∧ (legacyDrawing shape).mayBeEmpty = false)
    ∧ (drawingCall shape).entryFree "Draw".toList = true
    ∧ (unqualified ++ "Draw").startFree ("raw".toList ++ shape.toList) = true
    ∧ (drawingCall shape).startFree "Draw.".toList = true := by
  decide +kernel

/-- Two drawing calls at the same place draw the same shape. -/
theorem shape_unique {shape other : String} (hshape : shape ∈ drawnShapes) (hother : other ∈ drawnShapes)
    {r r' : Text} (hr : firstInk r = some '(') (hr' : firstInk r' = some '(')
    (h : shape.toList ++ r = other.toList ++ r') : shape = other := by
  have hhead : ∀ t : Text, firstInk t = some '(' → t.head?.any isPathChar = false := by
    intro t ht
    cases t with
    | nil => rfl
    | cons c t =>
      cases hc : isBlank c with
      | true => exact isPathChar_of_isBlank hc
      | false =>
        have hink := firstInk_append_of_ink (t := [c]) rfl hc t
        obtain rfl : c = '(' := Option.some.inj (hink.symm.trans ht)
        rfl
  have hword := List.all_eq_true.mp (calls_checked shape hshape).1.1
  have hword' := List.all_eq_true.mp (calls_checked other hother).1.1
  have htake := congrArg (List.takeWhile isPathChar) h
  rw [takeWhile_isPathChar hword (hhead r hr), takeWhile_isPathChar hword' (hhead r' hr')] at htake
  exact String.toList_injective htake

/-! ## The calls of a text -/

/-- What a replaced drawing call is called. -/
def newName (shape : String) : Text :=
  (drawingReplacement shape).new.toList

/-- What a drawing call is called when the calls of some shapes have been replaced. -/
def callName (done : List String) (shape : String) : Text :=
  if shape ∈ done then newName shape else "Draw".toList ++ shape.toList

/-- Both names of a call start and end alike. -/
theorem callName_eq (done : List String) (shape : String) :
    ∃ dot, callName done shape = "Draw".toList ++ (dot ++ shape.toList) := by
  unfold callName
  split
  · refine ⟨['.'], ?_⟩
    rw [newName, new_drawingReplacement]
    simp
  · exact ⟨[], rfl⟩

theorem callName_ne_nil (done : List String) (shape : String) : callName done shape ≠ [] := by
  obtain ⟨dot, hname⟩ := callName_eq done shape
  rw [hname]
  simp

theorem lastOr_callName {shape : String} (h : shape ∈ drawnShapes) (done : List String)
    (x : Option Char) : lastOr x (callName done shape) = lastOr x (callName [] shape) := by
  obtain ⟨⟨-, -, hlast⟩, -⟩ := drawnShapes_checked shape h
  obtain ⟨c, hc, -⟩ := (Option.any_eq_true _ _).mp hlast
  have hname : ∀ done, lastOr x (callName done shape) = some c := by
    intro done
    obtain ⟨dot, hname⟩ := callName_eq done shape
    rw [hname, ← List.append_assoc, lastOr_append, lastOr_of_getLast? hc]
  rw [hname, hname]

theorem update_callName (done : List String) (shape : String) :
    Function.update (callName done) shape (newName shape) = callName (done ++ [shape]) := by
  funext other
  by_cases hother : other = shape
  · subst hother
    rw [Function.update_self, callName, if_pos (by simp)]
  · rw [Function.update_of_ne hother]
    simp only [callName, List.mem_append, List.mem_singleton, hother, or_false]

/-- **The calls of a text:** the text is laid out so that a drawing call stands behind each piece, and
none starts in a piece or in the rest. -/
inductive Calls : Option Char → List (Text × String) → Text → Prop where
  | done {x : Option Char} {rest : Text}
      (none : ∀ shape ∈ drawnShapes, ¬ (drawingCall shape).Occurs x rest) : Calls x [] rest
  | next {x : Option Char} {gap : Text} {shape : String} {pieces : List (Text × String)} {rest : Text}
      (known : shape ∈ drawnShapes)
      (before : ∀ other ∈ drawnShapes, ¬ (drawingCall other).Begins x gap
        (callName [] shape ++ layout (callName []) pieces rest))
      (front : (lastOr x gap).any isPathChar = false)
      (paren : firstInk (layout (callName []) pieces rest) = some '(')
      (others : Calls (lastOr (lastOr x gap) (callName [] shape)) pieces rest) :
      Calls x ((gap, shape) :: pieces) rest

theorem Calls.known {x : Option Char} {pieces : List (Text × String)} {rest : Text}
    (h : Calls x pieces rest) : ∀ shape ∈ pieces.map Prod.snd, shape ∈ drawnShapes := by
  induction h with
  | done => simp
  | next known before front paren others ih => simpa using ⟨known, by simpa using ih⟩

/-- Every text is laid out at its calls. -/
theorem exists_calls (x : Option Char) (t : Text) :
    ∃ pieces rest, t = layout (callName []) pieces rest ∧ Calls x pieces rest := by
  have hany : ∀ {x : Option Char} {t : Text}, (anyOf (drawnShapes.map drawingCall)).StartsAt x t
      ↔ ∃ shape ∈ drawnShapes, (drawingCall shape).StartsAt x t := by
    intro x t
    have hne : drawnShapes.map drawingCall ≠ [] := by simp [drawnShapes]
    constructor
    · rintro ⟨w, r, rfl, hacc⟩
      obtain ⟨p, hp, hacc⟩ := (accepts_anyOf hne).mp hacc
      obtain ⟨shape, hshape, rfl⟩ := List.mem_map.mp hp
      exact ⟨shape, hshape, w, r, rfl, hacc⟩
    · rintro ⟨shape, hshape, w, r, rfl, hacc⟩
      exact ⟨w, r, rfl, (accepts_anyOf hne).mpr ⟨_, List.mem_map_of_mem hshape, hacc⟩⟩
  -- on the length of the text, since the next piece starts behind a whole call
  induction hn : t.length using Nat.strongRecOn generalizing x t with
  | _ n ih =>
    by_cases hocc : (anyOf (drawnShapes.map drawingCall)).Occurs x t
    · obtain ⟨gap, t', rfl, hfirst, hstart⟩ := hocc.first
      obtain ⟨shape, hshape, hstart⟩ := hany.mp hstart
      obtain ⟨hfront, r, rfl, hparen⟩ := startsAt_drawingCall.mp hstart
      have hlt : r.length < n := by
        rw [← hn]
        simp
        omega
      obtain ⟨pieces, rest, rfl, hcalls⟩ :=
        ih r.length hlt (lastOr (lastOr x gap) (callName [] shape)) r rfl
      refine ⟨(gap, shape) :: pieces, rest, rfl, .next hshape ?_ hfront hparen hcalls⟩
      rintro other hother ⟨a₁, a₂, hsplit, hne, hbegins⟩
      exact hfirst ⟨a₁, a₂, hsplit, hne, hany.mpr ⟨other, hother, hbegins⟩⟩
    · refine ⟨[], t, rfl, .done fun shape hshape => ?_⟩
      rintro ⟨a, b, hsplit, hstart⟩
      exact hocc ⟨a, b, hsplit, hany.mpr ⟨shape, hshape, hstart⟩⟩

/-! ## What one pass finds -/

/-- The text behind a call starts alike, however the calls in it are called. -/
theorem firstInk_layout (done : List String) (pieces : List (Text × String)) (rest : Text) :
    firstInk (layout (callName done) pieces rest) = firstInk (layout (callName []) pieces rest) := by
  cases pieces with
  | nil => rfl
  | cons piece pieces =>
    obtain ⟨gap, shape⟩ := piece
    have hname : ∀ (done : List String) (t : Text),
        firstInk (gap ++ (callName done shape ++ t)) = (firstInk gap).or (some 'D') := by
      intro done t
      obtain ⟨dot, hname⟩ := callName_eq done shape
      rw [hname, firstInk, List.find?_append]
      rfl
    rw [layout, layout, hname, hname]

section Pass

variable {shape : String} (hshape : shape ∈ drawnShapes) {done : List String}

include hshape in
/-- In a call of another shape no call starts, whether that one is replaced or not. -/
theorem not_begins_callName {other : String} (hother : other ∈ drawnShapes) (hne : other ≠ shape)
    {t : Text} (ht : firstInk t = some '(') (x : Option Char) :
    ¬ (drawingCall shape).Begins x (callName done other) t := by
  obtain ⟨-, -, -, hraw, -⟩ := calls_checked other hother
  obtain ⟨-, -, -, -, hdot⟩ := calls_checked shape hshape
  unfold callName
  split
  · have hname : (drawingCall shape).NoStart other.toList :=
      ((noStart_of_startFree (drawnShapes_checked other hother).2.2).followedBy _).followedBy _
    rw [newName, new_drawingReplacement]
    exact ((noStart_of_startFree hdot).append hname) x t
  · have htail : (drawingCall shape).NoStart ("raw".toList ++ other.toList) :=
      ((noStart_of_startFree hraw).followedBy _).followedBy _
    show ¬ (drawingCall shape).Begins x ('D' :: ("raw".toList ++ other.toList)) t
    rw [begins_cons]
    rintro (hstart | hbegins)
    · obtain ⟨-, r, hsplit, hparen⟩ := startsAt_drawingCall.mp hstart
      have hsame : other.toList ++ t = shape.toList ++ r := by simpa using hsplit
      exact hne (shape_unique hother hshape ht hparen hsame)
    · exact htail _ _ hbegins

/-- A call of a shape is a match of its pattern. -/
theorem matchAt?_legacyDrawing (shape : String) {x : Option Char} (hfront : x.any isPathChar = false) {t : Text}
    (ht : firstInk t = some '(') (pos : Nat) :
    ∃ m, (legacyDrawing shape).matchAt? ⟨pos, x, "Draw".toList ++ shape.toList ++ t⟩ = some m
      ∧ m.start = pos ∧ m.stop = pos + ("Draw".toList ++ shape.toList).length := by
  have hstart : (legacyDrawing shape).StartsAt x ("Draw".toList ++ shape.toList ++ t) :=
    (startsAt_legacyDrawing shape x _).mpr (startsAt_drawingCall.mpr ⟨hfront, t, rfl, ht⟩)
  obtain ⟨m, hm⟩ := Option.isSome_iff_exists.mp (isSome_matchAt?.mpr hstart)
  obtain ⟨w, r, -, hacc, hfrom, hto⟩ := accepts_of_matchAt? hm
  rw [eq_of_accepts_legacyDrawing hacc] at hto
  exact ⟨m, hm, hfrom, hto⟩

include hshape in
/-- **What a pass finds** are the calls of its shape, wherever they are by now. -/
theorem findAllFrom_layout (hdone : shape ∉ done) {x : Option Char} {pieces : List (Text × String)} {rest : Text}
    (h : Calls x pieces rest) {resume pos : Nat} (hresume : resume ≤ pos) :
    ((legacyDrawing shape).findAllFrom resume pos x (layout (callName done) pieces rest)).map
        (fun m => (m.start, m.stop))
      = ((places (callName done) pos (outline pieces)).filter
        (fun p => decide (p.key = shape))).map (fun p => (p.start, p.stop)) := by
  obtain ⟨-, ⟨hlocal, hempty⟩, hentry, -⟩ := calls_checked shape hshape
  have hsame := startsAt_legacyDrawing shape
  induction h generalizing resume pos with
  | @done x rest none =>
    have hnone : ¬ (legacyDrawing shape).Occurs x rest := by
      rw [occurs_congr hsame]
      exact none shape hshape
    have hcuts := cuts_findAllFrom (consumes_of_mayBeEmpty hempty) hresume (x := x) (t := rest)
    show ((legacyDrawing shape).findAllFrom resume pos x rest).map _ = []
    rw [hcuts.eq_nil hnone]
    rfl
  | @next x gap other pieces rest known before front paren others ih =>
    have hparen : firstInk (layout (callName done) pieces rest) = some '(' := by
      rw [firstInk_layout]
      exact paren
    -- nothing starts in the piece, since a call does not go on in another one
    have hgap : ¬ (legacyDrawing shape).Begins x gap
        (callName done other ++ layout (callName done) pieces rest) := by
      rw [begins_congr hsame]
      intro hbegins
      obtain ⟨dot, hname⟩ := callName_eq done other
      have hinto : (drawingCall shape).NoEntry (callName done other) := by
        rw [hname]
        exact (noEntry_of_entryFree hentry).append _
      have hhead : SameHead (callName done other ++ layout (callName done) pieces rest)
          (callName [] other ++ layout (callName []) pieces rest) := by
        rw [hname]
        rfl
      exact before shape hshape (hbegins.of_noEntry hlocal hinto hhead)
    have hlater : ∀ {resume}, resume ≤ pos + gap.length + (callName done other).length →
        ((legacyDrawing shape).findAllFrom resume (pos + gap.length + (callName done other).length)
            (lastOr (lastOr x gap) (callName done other)) (layout (callName done) pieces rest)).map
            (fun m => (m.start, m.stop))
          = ((places (callName done) (pos + gap.length + (callName done other).length)
            (outline pieces)).filter (fun p => decide (p.key = shape))).map
            (fun p => (p.start, p.stop)) := by
      intro resume hle
      rw [lastOr_callName known]
      exact ih hle
    rw [layout, findAllFrom_append hresume hgap, outline, List.map_cons, places, List.filter_cons]
    by_cases hkey : other = shape
    · subst hkey
      have hname : callName done other = "Draw".toList ++ other.toList := if_neg hdone
      obtain ⟨m, hm, hstart, hstop⟩ :=
        matchAt?_legacyDrawing other front hparen (pos + gap.length)
      rw [← hname] at hm hstop
      rw [findAllFrom_of_matchAt? (by omega) (callName_ne_nil done other) hm hstop, if_pos (by simp),
        List.map_cons, List.map_cons, hlater (by omega), hstart, hstop]
      rfl
    · have hskip : ¬ (legacyDrawing shape).Begins (lastOr x gap) (callName done other)
          (layout (callName done) pieces rest) := by
        rw [begins_congr hsame]
        exact not_begins_callName hshape known hkey hparen _
      rw [findAllFrom_append (by omega) hskip, if_neg (by simpa using hkey), hlater (by omega)]
      rfl

end Pass

/-! ## What one pass does -/

/-- The text of a word that stands visibly in the mask stands in the script as well. -/
theorem exists_pieces {word : String → Text} {code pre : Text} {masked : List (Text × String)}
    {rest : Text} (h : mask code = pre ++ layout word masked rest)
    (hvisible : ∀ key ∈ masked.map Prod.snd, ∀ c ∈ word key, isVisible c = true) :
    ∃ pieces rest', code.drop pre.length = layout word pieces rest'
      ∧ outline pieces = outline masked := by
  induction masked generalizing pre with
  | nil => exact ⟨[], code.drop pre.length, rfl, rfl⟩
  | cons piece masked ih =>
    obtain ⟨gap, key⟩ := piece
    have hcut : mask code = (pre ++ gap) ++ word key ++ layout word masked rest := by
      rw [h, layout]
      simp only [List.append_assoc]
    obtain ⟨pieces, rest', hrest, houtline⟩ :=
      ih hcut fun other hother => hvisible other (by simp [hother])
    have hword := slice_of_visible hcut (hvisible key (by simp))
    have hlength := congrArg List.length hcut
    simp only [length_mask, List.length_append] at hlength hword hrest
    refine ⟨((code.drop pre.length).take gap.length, key) :: pieces, rest', ?_, ?_⟩
    · have hbehind : code.drop (pre.length + gap.length)
          = word key ++ code.drop (pre.length + gap.length + (word key).length) := by
        rw [Text.slice_add] at hword
        calc code.drop (pre.length + gap.length)
            = (code.drop (pre.length + gap.length)).take (word key).length
              ++ (code.drop (pre.length + gap.length)).drop (word key).length :=
              (List.take_append_drop _ _).symm
          _ = _ := by rw [hword, List.drop_drop]
      rw [layout, ← hrest, ← hbehind, ← List.drop_drop, List.take_append_drop]
    · have hgap : ((code.drop pre.length).take gap.length).length = gap.length := by
        rw [List.length_take, List.length_drop]
        omega
      rw [outline, List.map_cons, hgap]
      exact congrArg _ houtline

/-- A search finds nothing exactly if no match starts in the text. -/
theorem findAll_eq_nil_iff {p : Pattern} (hp : p.Consumes) (t : Text) :
    p.findAll t = [] ↔ ¬ p.Occurs none t := by
  have hnone : ∀ {x : Option Char} {pos : Nat} {t : Text}, Cuts p x pos t [] → ¬ p.Occurs x t := by
    intro x pos t h
    cases h with
    | done none => exact none
  have hcuts := cuts_findAll hp t
  constructor
  · intro hnil
    rw [hnil] at hcuts
    exact hnone hcuts
  · exact hcuts.eq_nil

theorem changes_apply {rep : Replacement} (hrep : rep ∈ legacy) (code : Text) :
    (rep.apply code).changes = if rep.shape.occursIn (mask code) then [rep.change] else [] := by
  have hnil := findAll_eq_nil_iff (fits_of_mem_legacy hrep).consumes (mask code)
  rw [← occursIn_iff] at hnil
  unfold Replacement.apply
  cases hfound : rep.shape.findAll (mask code) with
  | nil => rw [if_neg (hnil.mp hfound)]
  | cons m ms =>
    have hsome : rep.shape.occursIn (mask code) = true := by
      by_contra hno
      rw [hnil.mpr hno] at hfound
      cases hfound
    rw [if_pos hsome]

/-- The edits that give every drawing call of a mask its new name, shape by shape. -/
def drawingEdits (masked : Text) : List Edit :=
  drawnShapes.flatMap fun shape =>
    ((legacyDrawing shape).findAll masked).map fun m =>
      ⟨m.start, m.stop, (drawingReplacement shape).new.toList⟩

section Found

variable {pieces : List (Text × String)} {rest : Text} (h : Calls none pieces rest)

include h

/-- The edits of a pass are those of the places where calls of its shape stand. -/
theorem Calls.edits_findAll {shape : String} (hshape : shape ∈ drawnShapes) {done : List String}
    (hdone : shape ∉ done) :
    ((legacyDrawing shape).findAll (layout (callName done) pieces rest)).map
        (fun m => Edit.mk m.start m.stop (newName shape))
      = ((places (callName done) 0 (outline pieces)).filter
        (fun p => decide (p.key = shape))).map (Place.edit newName) := by
  have hends := congrArg (List.map fun e : Nat × Nat => Edit.mk e.1 e.2 (newName shape))
    (findAllFrom_layout hshape hdone h (Nat.le_refl 0))
  rw [List.map_map, List.map_map] at hends
  refine hends.trans (List.map_congr_left fun p hp => ?_)
  obtain rfl : p.key = shape := of_decide_eq_true (List.mem_filter.mp hp).2
  rfl

/-- A pass finds something exactly if a call of its shape stands behind a piece. -/
theorem Calls.occursIn_iff {shape : String} (hshape : shape ∈ drawnShapes) {done : List String}
    (hdone : shape ∉ done) :
    (legacyDrawing shape).occursIn (layout (callName done) pieces rest) = true
      ↔ shape ∈ pieces.map Prod.snd := by
  have hconsumes := consumes_of_mayBeEmpty (calls_checked shape hshape).2.1.2
  have hnil := findAll_eq_nil_iff hconsumes (layout (callName done) pieces rest)
  rw [← Pattern.occursIn_iff, ← List.map_eq_nil_iff, h.edits_findAll hshape hdone,
    List.map_eq_nil_iff, List.filter_eq_nil_iff] at hnil
  rw [← not_iff_not, ← hnil, ← map_snd_outline, ← map_key_places (callName done) 0, List.mem_map]
  simp

/-- Shape by shape, the edits are those of all places, in another order. -/
theorem Calls.edits_perm : (drawingEdits (layout (callName []) pieces rest)).Perm
    ((places (callName []) 0 (outline pieces)).map (Place.edit newName)) := by
  have hgrouped : drawingEdits (layout (callName []) pieces rest)
      = (drawnShapes.flatMap fun shape => (places (callName []) 0 (outline pieces)).filter
        (fun p => decide (p.key = shape))).map (Place.edit newName) := by
    rw [List.map_flatMap]
    exact List.flatMap_congr fun shape hshape => h.edits_findAll hshape List.not_mem_nil
  have hcover : ∀ p ∈ places (callName []) 0 (outline pieces), p.key ∈ drawnShapes := by
    intro p hp
    apply h.known
    rw [← map_snd_outline, ← map_key_places (callName []) 0]
    exact List.mem_map_of_mem hp
  have hnodup : drawnShapes.Nodup := by decide
  rw [hgrouped]
  exact (flatMap_filter_perm hnodup hcover).map _

theorem Calls.edits_apart : (drawingEdits (layout (callName []) pieces rest)).Pairwise Edit.Apart := by
  refine (h.edits_perm.pairwise_iff Edit.Apart.symm).mpr (List.pairwise_map.mpr ?_)
  exact (pairwise_places (callName []) 0 (outline pieces)).imp fun hle => .inl hle

/-- **Made at once**, the edits rename all calls: in the text itself, and in every text that has the
same calls at the same places. -/
theorem Calls.atOnce_edits {others : List (Text × String)} (hsame : outline others = outline pieces)
    (rest' : Text) : atOnce (drawingEdits (layout (callName []) pieces rest))
      (layout (callName []) others rest') = layout newName others rest' := by
  have hone : (drawingEdits (layout (callName []) pieces rest)).Pairwise
      fun e e' => e.start ≠ e'.start := by
    refine (h.edits_perm.pairwise_iff Ne.symm).mpr (List.pairwise_map.mpr ?_)
    refine (pairwise_places (callName []) 0 (outline pieces)).imp_of_mem fun hp hp' hle => ?_
    have hlt := start_lt_of_mem_places (callName_ne_nil []) hp
    exact Nat.ne_of_lt (Nat.lt_of_lt_of_le hlt hle)
  rw [atOnce_perm h.edits_perm hone, ← hsame]
  exact atOnceFrom_layout (callName_ne_nil []) newName 0 others rest'

end Found

/-! ## The script and its mask -/

/-- The script and its mask when the calls of some shapes have been replaced: both are laid out in
pieces with the same shapes, and no more has changed than how the calls are called. -/
structure Stage (pieces masked : List (Text × String)) (rest rest' : Text) (done : List String)
    (code : Text) : Prop where
  script : code = layout (callName done) pieces rest
  mask : mask code = layout (callName done) masked rest'

/-- Every script is at the first stage. -/
theorem exists_stage (code : Text) :
    ∃ pieces masked rest rest', Calls none masked rest' ∧ outline pieces = outline masked
      ∧ Stage pieces masked rest rest' [] code := by
  obtain ⟨masked, rest', hmask, hcalls⟩ := exists_calls none (mask code)
  have hvisible : ∀ shape ∈ masked.map Prod.snd, ∀ c ∈ callName [] shape, isVisible c = true := by
    intro shape hshape
    obtain ⟨⟨-, hletters⟩, -⟩ := calls_checked shape (hcalls.known shape hshape)
    have hall : ("Draw".toList ++ shape.toList).all isVisible = true := by
      rw [List.all_append, hletters]
      decide
    exact List.all_eq_true.mp hall
  have hfront : mask code = [] ++ layout (callName []) masked rest' := hmask
  obtain ⟨pieces, rest, hscript, houtline⟩ := exists_pieces hfront hvisible
  rw [List.length_nil, List.drop_zero] at hscript
  exact ⟨pieces, masked, rest, rest', hcalls, houtline, hscript, hmask⟩

section Stage

variable {pieces masked : List (Text × String)} {rest rest' : Text}
  (hcalls : Calls none masked rest') (houtline : outline pieces = outline masked)

include hcalls houtline

/-- **A pass** takes the calls of its shape to the next stage. -/
theorem Stage.apply {done : List String} {code : Text}
    (h : Stage pieces masked rest rest' done code) {shape : String} (hshape : shape ∈ drawnShapes)
    (hdone : shape ∉ done) :
    Stage pieces masked rest rest' (done ++ [shape]) ((drawingReplacement shape).apply code).code := by
  have hname : callName done shape = "Draw".toList ++ shape.toList := if_neg hdone
  have hcode : ((drawingReplacement shape).apply code).code
      = spliceAll (((places (callName done) 0 (outline masked)).filter
        (fun p => decide (p.key = shape))).map (Place.edit newName)) code := by
    rw [apply_code, ← hcalls.edits_findAll hshape hdone, ← h.mask, spliceAll, List.foldr_map]
    rfl
  rw [hcode]
  -- the same splices read in the script and in its mask
  constructor
  · have hview : ∀ {t a b : Text}, id t = a ++ callName done shape ++ b →
        id (Text.splice t a.length (a.length + (callName done shape).length) (newName shape))
          = a ++ newName shape ++ b := by
      rintro _ a b rfl
      exact splice_append a _ b _
    have hscript : id code = [] ++ layout (callName done) pieces rest := h.script
    rw [← update_callName, ← houtline]
    exact spliceAll_layout hview hscript
  · have hview : ∀ {t a b : Text}, Lexing.mask t = a ++ callName done shape ++ b →
        Lexing.mask (Text.splice t a.length (a.length + (callName done shape).length) (newName shape))
          = a ++ newName shape ++ b := by
      intro t a b ht
      obtain ⟨⟨-, -, hlast⟩, -⟩ := drawnShapes_checked shape hshape
      obtain ⟨z, hz, hzv⟩ := (Option.any_eq_true _ _).mp hlast
      have hinert := (legacy_new (List.mem_append_left _ (List.mem_map_of_mem hshape))).2.1
      refine mask_splice (x := 'D') (y := 'D') ht ?_ (by decide) (by decide) ?_ hzv ?_ (by decide)
        (List.all_eq_true.mp hinert)
      · rw [hname]
        rfl
      · rw [hname, getLast?_shape hshape, hz]
      · show (drawingReplacement shape).new.toList.head? = some 'D'
        rw [new_drawingReplacement]
        rfl
    have hmask : Lexing.mask code = [] ++ layout (callName done) masked rest' := h.mask
    rw [← update_callName]
    exact spliceAll_layout hview hmask

/-- **The passes in a row** take the calls of all their shapes to the last stage, and list the shapes
of which there was a call. -/
theorem Stage.applyAll {shapes : List String} (hshapes : ∀ shape ∈ shapes, shape ∈ drawnShapes)
    (hnodup : shapes.Nodup) {done : List String} (hdone : ∀ shape ∈ shapes, shape ∉ done) {code : Text}
    (h : Stage pieces masked rest rest' done code) :
    Stage pieces masked rest rest' (done ++ shapes)
        (Modernize.applyAll (shapes.map drawingReplacement) code).code
      ∧ (Modernize.applyAll (shapes.map drawingReplacement) code).changes
        = (shapes.filter fun shape => decide (shape ∈ masked.map Prod.snd)).map
          fun shape => (drawingReplacement shape).change := by
  induction shapes generalizing done code with
  | nil => exact ⟨by rwa [List.append_nil], rfl⟩
  | cons shape shapes ih =>
    have hshape := hshapes shape (by simp)
    have hnew := hdone shape (by simp)
    obtain ⟨hfresh, hothers⟩ := List.nodup_cons.mp hnodup
    have hlater : ∀ other ∈ shapes, other ∉ done ++ [shape] := by
      intro other hother hmem
      rcases List.mem_append.mp hmem with hmem | hmem
      · exact hdone other (by simp [hother]) hmem
      · rw [List.mem_singleton.mp hmem] at hother
        exact hfresh hother
    obtain ⟨hstage, hchanges⟩ := ih (fun other hother => hshapes other (by simp [hother])) hothers
      hlater (h.apply hcalls houtline hshape hnew)
    have hrep : drawingReplacement shape ∈ legacy :=
      List.mem_append_left _ (List.mem_map_of_mem hshape)
    have hfound : (drawingReplacement shape).shape.occursIn (Lexing.mask code)
        = decide (shape ∈ masked.map Prod.snd) := by
      rw [← Bool.coe_iff_coe, decide_eq_true_iff, h.mask]
      exact hcalls.occursIn_iff hshape hnew
    rw [List.append_assoc, List.singleton_append] at hstage
    rw [List.map_cons, applyAll_cons, Revision.andThen]
    refine ⟨hstage, ?_⟩
    show ((drawingReplacement shape).apply code).changes ++ _ = _
    rw [hchanges, changes_apply hrep, hfound, List.filter_cons]
    by_cases hmem : shape ∈ masked.map Prod.snd <;> simp [hmem]

end Stage

/-! ## All passes -/

/-- **The passes are one replacement of all calls at once:** the calls that the first mask has lie
apart, and the script afterwards is the script with all of them replaced at once, as its mask is the
mask with all of them replaced. It does not matter in which order the shapes are taken, but for the
list of changes, which has one entry for each shape of which there is a call, in that order. -/
theorem fixDrawings_at_once (code : Text) :
    let edits := drawingEdits (mask code)
    let called := fun shape => (legacyDrawing shape).occursIn (mask code)
    edits.Pairwise Edit.Apart
      ∧ fixDrawings code = ⟨atOnce edits code,
        (drawnShapes.filter called).map fun shape => (drawingReplacement shape).change⟩
      ∧ mask (fixDrawings code).code = atOnce edits (mask code)
      ∧ ∀ shapes : List String, shapes.Perm drawnShapes →
        applyAll (shapes.map drawingReplacement) code = ⟨atOnce edits code,
          (shapes.filter called).map fun shape => (drawingReplacement shape).change⟩ := by
  intro edits called
  obtain ⟨pieces, masked, rest, rest', hcalls, houtline, hstart⟩ := exists_stage code
  have hedits : edits = drawingEdits (layout (callName []) masked rest') := by
    rw [← hstart.mask]
  have hscript : atOnce edits code = layout newName pieces rest := by
    rw [hedits, hstart.script]
    exact hcalls.atOnce_edits houtline rest
  have hmask : atOnce edits (mask code) = layout newName masked rest' := by
    rw [hedits, hstart.mask]
    exact hcalls.atOnce_edits rfl rest'
  -- the passes, in any order, leave the layout with the new names
  have hpasses : ∀ shapes : List String, shapes.Perm drawnShapes →
      applyAll (shapes.map drawingReplacement) code = ⟨atOnce edits code,
          (shapes.filter called).map fun shape => (drawingReplacement shape).change⟩
        ∧ mask (applyAll (shapes.map drawingReplacement) code).code = atOnce edits (mask code) := by
    intro shapes hshapes
    have hknown : ∀ shape ∈ shapes, shape ∈ drawnShapes := fun shape => hshapes.mem_iff.mp
    have hnodup : shapes.Nodup := hshapes.nodup_iff.mpr (by decide)
    obtain ⟨hend, hchanges⟩ := hstart.applyAll hcalls houtline hknown hnodup (by simp)
    have hnew : ∀ shape ∈ masked.map Prod.snd, callName ([] ++ shapes) shape = newName shape :=
      fun shape hshape => if_pos (hshapes.mem_iff.mpr (hcalls.known shape hshape))
    have hkeys : pieces.map Prod.snd = masked.map Prod.snd := by
      rw [← map_snd_outline, houtline, map_snd_outline]
    have hcode : (applyAll (shapes.map drawingReplacement) code).code = atOnce edits code := by
      rw [hend.script, hscript]
      exact layout_congr (by rwa [hkeys]) rest
    have hfilter : (shapes.filter fun shape => decide (shape ∈ masked.map Prod.snd))
        = shapes.filter called := by
      refine List.filter_congr fun shape hshape => ?_
      rw [← Bool.coe_iff_coe, decide_eq_true_iff, ← hcalls.occursIn_iff (hknown shape hshape)
        List.not_mem_nil, ← hstart.mask]
    rw [hfilter] at hchanges
    refine ⟨congrArg₂ Revision.mk hcode hchanges, ?_⟩
    rw [hend.mask, hmask]
    exact layout_congr hnew rest'
  obtain ⟨hcode, hmasked⟩ := hpasses drawnShapes (List.Perm.refl _)
  have hapart : edits.Pairwise Edit.Apart := by
    rw [hedits]
    exact hcalls.edits_apart
  exact ⟨hapart, hcode, hmasked, fun shapes hshapes => (hpasses shapes hshapes).1⟩

-- a call inside of another one whose name it starts with, and one in a literal
example : (fixDrawings "DrawText(DrawTextFixed (\"DrawDot(\"))".toList).code
    = "Draw.Text(Draw.TextFixed (\"DrawDot(\"))".toList := by
  decide +kernel

end Modernize

end ChartLint
