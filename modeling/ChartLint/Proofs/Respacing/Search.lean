import ChartLint.Proofs.Pattern.Kept
import ChartLint.Proofs.Respacing.Standings

/-!
# Searching a respaced script

A pattern that ends even, and that starts at no line break, finds in the respaced script exactly what
it finds in the script: the same matches at their places, with the same parts
(`findAll_text`, `find?_text`, `occursIn_text`).
-/

namespace ChartLint

/-- Where a match lies in a respaced script. -/
def Match.moved (place : Nat → Nat) (m : Match) : Match :=
  ⟨place m.start, place m.stop, m.kept.map (Respacing.keptAt place)⟩

namespace Respacing

open Text Pattern

variable {r : Respacing} {place : Nat → Nat} {p : Pattern}

/-- **The pattern is steady:** whatever the spacing, it reads the same, and no line break starts it.
-/
structure Steady (r : Respacing) (p : Pattern) : Prop where
  even : p.standings r.returns .onlyEven = .onlyEven
  noFeed : p.NoStart ['\n']
  noReturn : p.NoStart ['\r']

/-- A computed reason for a pattern to be steady. -/
def isSteady (p : Pattern) : Bool :=
  decide (p.standings true .onlyEven = .onlyEven) && decide (p.standings false .onlyEven = .onlyEven)
    && p.startFree ['\n'] && p.startFree ['\r']

/-- Steadiness is computed for patterns that are given. -/
theorem steady_of_isSteady (h : isSteady p = true) : r.Steady p := by
  simp only [isSteady, Bool.and_eq_true, decide_eq_true_eq] at h
  obtain ⟨⟨⟨htrue, hfalse⟩, hfeed⟩, hreturn⟩ := h
  refine ⟨?_, noStart_of_startFree hfeed, noStart_of_startFree hreturn⟩
  cases r.returns with
  | true => exact htrue
  | false => exact hfalse

/-! ## One match -/

/-- Ways that are woven and start even have first ways that end even. -/
theorem Woven.head? {es es' : List Ending} (h : Woven r place .onlyEven es es') :
    (es = [] ∧ es' = []) ∨ ∃ e e', es.head? = some e ∧ es'.head? = some e'
      ∧ Even r place e.here e'.here ∧ e'.kept = e.kept.map (keptAt place) := by
  cases h with
  | nil => exact .inl ⟨rfl, rfl⟩
  | both tied kept _ =>
    cases tied with
    | even _ heven => exact .inr ⟨_, _, rfl, rfl, heven, kept⟩
    | late allowed _ => cases allowed
  | stray tied _ =>
    cases tied with
    | stray allowed _ => cases allowed

/-- **A steady pattern** matches at the place of a cursor as it does at the cursor. -/
theorem matchAt?_even (hp : r.Steady p) (hmono : StrictMono place) {c c' : Cursor}
    (h : Even r place c c') : p.matchAt? c' = (p.matchAt? c).map (Match.moved place) := by
  have hlost : (p.standings r.returns .onlyEven).lost = false := by
    rw [hp.even]
    rfl
  have hwoven : Woven r place (p.standings r.returns .onlyEven) (p.ends c) (p.ends c') :=
    woven_ends hmono hlost (.even rfl h)
  rw [hp.even] at hwoven
  rw [matchAt?, matchAt?]
  rcases hwoven.head? with ⟨hnil, hnil'⟩ | ⟨e, e', he, he', heven, hkept⟩
  · rw [hnil, hnil']
    rfl
  · rw [he, he', Option.map_some, Option.map_some, Option.map_some, Match.moved, hkept, h.place_here,
      heven.place_here]

/-- A pattern that starts at no such character has no match there. -/
theorem matchAt?_of_noStart {v : Text} {c : Char} (hp : p.NoStart [c]) (pos : Nat) (x : Option Char) :
    p.matchAt? ⟨pos, x, c :: v⟩ = none := by
  rw [matchAt?_eq_none]
  intro hstart
  exact hp x v ⟨[], [c], rfl, by simp, hstart⟩

/-! ## Searches -/

/-- Where no match starts a search goes on. -/
theorem findFrom?_skip {w : Text} (hw : ∀ c ∈ w, p.NoStart [c]) (pos : Nat) (x : Option Char) (t : Text) :
    p.findFrom? pos x (w ++ t) = p.findFrom? (pos + w.length) (lastOr x w) t := by
  induction w generalizing pos x with
  | nil => rfl
  | cons c w ih =>
    rw [List.cons_append, findFrom?, matchAt?_of_noStart (hw c List.mem_cons_self)]
    simp only
    rw [ih (fun d hd => hw d (List.mem_cons_of_mem c hd)), lastOr_cons, List.length_cons]
    congr 1
    omega

/-- A search passes characters that its pattern does not start at. -/
theorem findAllFrom_noStart {w : Text} (hw : ∀ c ∈ w, p.NoStart [c]) (resume pos : Nat)
    (x : Option Char) (t : Text) :
    p.findAllFrom resume pos x (w ++ t) = p.findAllFrom resume (pos + w.length) (lastOr x w) t := by
  induction w generalizing pos x with
  | nil => rfl
  | cons c w ih =>
    have hnone := matchAt?_of_noStart (hw c List.mem_cons_self) (v := w ++ t) pos x
    have hskip : p.findAllFrom resume pos x (c :: (w ++ t))
        = p.findAllFrom resume (pos + 1) (some c) (w ++ t) := by
      rw [findAllFrom, hnone]
      simp
    rw [List.cons_append, hskip, ih (fun d hd => hw d (List.mem_cons_of_mem c hd)), lastOr_cons,
      List.length_cons]
    congr 1
    omega

/-- At a line break no match starts, with its carriage return or without. -/
theorem Steady.noStart_spelling (hp : r.Steady p) : ∀ c ∈ r.spelling '\n', p.NoStart [c] := by
  rw [spelling, if_pos rfl]
  intro c hc
  rcases List.mem_append.mp hc with hc | hc
  · rw [mem_lineEnd hc]
    exact hp.noReturn
  · rw [List.mem_singleton.mp hc]
    exact hp.noFeed

theorem lastOr_spelling (x : Option Char) (c : Char) : lastOr x (r.spelling c) = some c := by
  rw [spelling]
  split
  · next hc => rw [hc, lastOr_append, lastOr_cons, lastOr_nil]
  · rfl

/-- **The first match** from an even start is the first match, moved. -/
theorem findFrom?_even (hp : r.Steady p) (hmono : StrictMono place) {c c' : Cursor}
    (h : Even r place c c') :
    p.findFrom? c'.pos c'.before c'.rest
      = (p.findFrom? c.pos c.before c.rest).map (Match.moved place) := by
  obtain ⟨pos, x, t⟩ := c
  obtain ⟨pos', x', t'⟩ := c'
  obtain rfl : t' = r.inner t := h.rest
  induction t generalizing pos pos' x x' with
  | nil => exact matchAt?_even hp hmono h
  | cons c t ih =>
    have hmatch := matchAt?_even hp hmono h
    have hnext := h.next
    simp only at ih ⊢
    by_cases hc : c = '\n'
    · subst hc
      rw [inner_cons, findFrom?_skip hp.noStart_spelling, lastOr_spelling, findFrom?,
        matchAt?_of_noStart hp.noFeed]
      exact ih _ _ _ _ hnext
    · rw [spelling_of_ne hc] at hnext
      rw [inner_cons_of_ne hc] at hmatch ⊢
      rw [findFrom?, findFrom?, hmatch]
      cases p.matchAt? ⟨pos, x, c :: t⟩ with
      | none => exact ih _ _ _ _ hnext
      | some m => rfl

/-- **All matches** from an even start are all matches, moved. A match ends even, so that the search
goes on as it began. -/
theorem findAllFrom_even (hp : r.Steady p) (hmono : StrictMono place) {c c' : Cursor}
    (h : Even r place c c') (resume : Nat) :
    p.findAllFrom (place resume) c'.pos c'.before c'.rest
      = (p.findAllFrom resume c.pos c.before c.rest).map (Match.moved place) := by
  obtain ⟨pos, x, t⟩ := c
  obtain ⟨pos', x', t'⟩ := c'
  obtain rfl : t' = r.inner t := h.rest
  induction t generalizing pos pos' x x' resume with
  | nil =>
    have hmatch := matchAt?_even hp hmono h
    have hhere : place pos = pos' := h.place_here
    have hpos : pos' < place resume ↔ pos < resume := by
      rw [← hhere]
      exact hmono.lt_iff_lt
    simp only [inner_nil, findAllFrom, hpos] at hmatch ⊢
    rw [hmatch]
    split
    · rfl
    · cases p.matchAt? ⟨pos, x, []⟩ <;> rfl
  | cons c t ih =>
    have hmatch := matchAt?_even hp hmono h
    have hnext := h.next
    have hhere : place pos = pos' := h.place_here
    have hpos : pos' < place resume ↔ pos < resume := by
      rw [← hhere]
      exact hmono.lt_iff_lt
    simp only at ih ⊢
    by_cases hc : c = '\n'
    · subst hc
      -- a steady pattern starts nowhere inside of a line break, so both searches pass over it
      have hskip := findAllFrom_noStart (w := ['\n']) (List.forall_mem_singleton.mpr hp.noFeed) resume pos
        x t
      rw [List.singleton_append] at hskip
      rw [inner_cons, findAllFrom_noStart hp.noStart_spelling, lastOr_spelling, hskip]
      exact ih _ _ _ _ _ hnext
    · rw [spelling_of_ne hc] at hnext
      rw [inner_cons_of_ne hc] at hmatch ⊢
      rw [findAllFrom, findAllFrom, hmatch]
      simp only [hpos]
      split
      · exact ih resume _ _ _ _ hnext
      · cases p.matchAt? ⟨pos, x, c :: t⟩ with
        | none => exact ih resume _ _ _ _ hnext
        | some m =>
          simp only [Option.map_some, List.map_cons]
          rw [← ih m.stop _ _ _ _ hnext]
          rfl

/-! ## The whole script -/

/-- A place and where it lies are even. -/
theorem even_append {g x : Text} (hfits : r.Fits (g ++ x)) :
    Even r (r.place (g ++ x)) ⟨g.length, g.getLast?, x⟩
      ⟨(r.text g).length, (r.text g).getLast?, r.inner x⟩ where
  rest := rfl
  fits := hfits.of_append_right
  before := by
    simp only
    rcases List.eq_nil_or_concat g with rfl | ⟨front, c, rfl⟩
    · rw [text, inner_nil, List.append_nil, head]
      cases r.front with
      | zero => exact .inl rfl
      | succ n =>
        rw [List.replicate_succ', inner_append]
        refine .inr ⟨rfl, ?_⟩
        rw [inner_cons_feed, inner_nil, ← List.append_assoc, List.getLast?_concat]
    · left
      rw [List.concat_eq_append, text, inner_append, ← List.append_assoc]
      by_cases hc : c = '\n'
      · subst hc
        rw [inner_cons_feed, inner_nil, ← List.append_assoc, List.getLast?_concat,
          List.getLast?_concat]
      · rw [inner_cons_of_ne hc, inner_nil, List.getLast?_concat, List.getLast?_concat]
  place := by
    intro u v huv
    obtain rfl : x = u ++ v := huv
    have hplace := r.place_append (g ++ u) v
    rw [List.append_assoc] at hplace
    simp only at *
    rw [← List.length_append, hplace, text, text, inner_append]
    simp only [List.length_append]
    omega

/-- An offset and its place are an even start. -/
theorem even_ofOffset {t : Text} (hfits : r.Fits t) {n : Nat} (hn : n ≤ t.length) :
    Even r (r.place t) (Cursor.ofOffset t n) (Cursor.ofOffset (r.text t) (r.place t n)) := by
  obtain ⟨g, x, rfl, rfl⟩ := exists_append hn
  rw [place_append, text_append, ofOffset_append, ofOffset_append]
  exact even_append hfits

/-- A search that may start anywhere does not ask from where on it may. -/
theorem findAllFrom_resume {resume resume' pos : Nat} (h : resume ≤ pos) (h' : resume' ≤ pos)
    (x : Option Char) (t : Text) : p.findAllFrom resume pos x t = p.findAllFrom resume' pos x t := by
  induction t generalizing pos x with
  | nil => rw [findAllFrom, findAllFrom, if_neg (by omega), if_neg (by omega)]
  | cons c t ih =>
    rw [findAllFrom, findAllFrom, if_neg (by omega), if_neg (by omega)]
    cases p.matchAt? ⟨pos, x, c :: t⟩ with
    | none => exact ih (by omega) (by omega) (some c)
    | some m => rfl

/-- No match starts in the lines put in front. -/
theorem Steady.noStart_head (hp : r.Steady p) : ∀ c ∈ r.head, p.NoStart [c] := by
  intro c hc
  rcases mem_inner hc with hc | rfl
  · obtain rfl := List.eq_of_mem_replicate hc
    exact hp.noFeed
  · exact hp.noReturn

/-- The start of the script is an even start, as seen from behind the lines put in front. -/
theorem even_start {t : Text} (hfits : r.Fits t) :
    Even r (r.place t) ⟨0, none, t⟩ ⟨r.head.length, lastOr none r.head, r.inner t⟩ := by
  have h := even_append (g := []) (x := t) hfits
  rw [text, inner_nil, List.append_nil] at h
  rw [lastOr_none]
  exact h

/-- **A search** finds the first match at its place. -/
theorem find?_text (hp : r.Steady p) {t : Text} (hfits : r.Fits t) :
    p.find? (r.text t) = (p.find? t).map (Match.moved (r.place t)) := by
  rw [find?, text, findFrom?_skip hp.noStart_head, Nat.zero_add]
  exact findFrom?_even hp (r.place_strictMono t) (even_start hfits)

/-- **A search** finds all matches at their places. -/
theorem findAll_text (hp : r.Steady p) {t : Text} (hfits : r.Fits t) :
    p.findAll (r.text t) = (p.findAll t).map (Match.moved (r.place t)) := by
  have heven := findAllFrom_even hp (r.place_strictMono t) (even_start hfits) 0
  rw [place_zero] at heven
  rw [findAll, text, findAllFrom_noStart hp.noStart_head, Nat.zero_add]
  exact (findAllFrom_resume (Nat.zero_le _) (Nat.le_refl _) _ _).trans heven

/-- A steady pattern occurs in the respaced text if it occurs in the text. -/
theorem occursIn_text (hp : r.Steady p) {t : Text} (hfits : r.Fits t) :
    p.occursIn (r.text t) = p.occursIn t := by
  rw [occursIn, occursIn, find?_text hp hfits, Option.isSome_map]

/-- The respacing that only spells line breaks anew. -/
def spelled (r : Respacing) : Respacing :=
  ⟨0, r.returns⟩

theorem text_spelled (t : Text) : r.spelled.text t = r.inner t :=
  List.nil_append _

theorem Steady.spelled (hp : r.Steady p) : r.spelled.Steady p :=
  ⟨hp.even, hp.noFeed, hp.noReturn⟩

/-- A search in a part of the script. -/
theorem occursIn_inner (hp : r.Steady p) {t : Text} (hfits : r.Fits t) :
    p.occursIn (r.inner t) = p.occursIn t := by
  rw [← text_spelled]
  exact occursIn_text hp.spelled hfits

theorem Fits.take {t : Text} (h : r.Fits t) (n : Nat) : r.Fits (t.take n) :=
  fun hr hmem => h hr (List.mem_of_mem_take hmem)

/-- Only the places that are still ahead matter. -/
theorem Even.congr_place {c c' : Cursor} (h : Even r place c c') {place' : Nat → Nat}
    (heq : ∀ n, n ≤ c.pos + c.rest.length → place' n = place n) : Even r place' c c' where
  rest := h.rest
  before := h.before
  fits := h.fits
  place := by
    intro u v huv
    rw [heq _ (by rw [huv, List.length_append]; omega)]
    exact h.place u v huv

section Within

variable {t : Text} (hfits : r.Fits t) {start stop : Nat} (hstart : start ≤ stop)
  (hstop : stop ≤ t.length)

include hfits hstart hstop

/-- A stretch of the text may be searched like the text: its start is even and it ends where the
stretch ends. -/
theorem even_within : Even r (r.place t) (Cursor.ofOffset (t.take stop) start)
    (Cursor.ofOffset ((r.text t).take (r.place t stop)) (r.place t start)) := by
  have heven := even_ofOffset (hfits.take stop) (n := start) (by rw [List.length_take]; omega)
  rw [place_take hstart, ← take_text hstop] at heven
  refine heven.congr_place (fun n hn => ?_)
  have hlast : n ≤ stop := by
    simp only [Cursor.ofOffset, List.length_drop, List.length_take] at hn
    omega
  exact (place_take hlast).symm

/-- **A search between two offsets** is a search between their places. -/
theorem findWithin?_text (hp : r.Steady p) :
    p.findWithin? (r.text t) (r.place t start) (r.place t stop)
      = (p.findWithin? t start stop).map (Match.moved (r.place t)) :=
  findFrom?_even hp (r.place_strictMono t) (even_within hfits hstart hstop)

/-- **All matches within a stretch** are the matches within it, moved. -/
theorem findAllWithin_text (hp : r.Steady p) :
    p.findAllWithin (r.text t) (r.place t start) (r.place t stop)
      = (p.findAllWithin t start stop).map (Match.moved (r.place t)) := by
  have heven := findAllFrom_even hp (r.place_strictMono t) (even_within hfits hstart hstop) 0
  have hresume : r.place t 0 ≤ r.place t start := (r.place_strictMono t).monotone (Nat.zero_le start)
  exact (findAllFrom_resume (Nat.zero_le _) hresume _ _).trans heven

end Within

/-! ## Parts of a match -/

theorem span_moved (m : Match) (slot : Slot) :
    (m.moved place).span slot = ⟨place (m.span slot).start, place (m.span slot).stop⟩ := by
  have hlookup : ∀ kept : List (Slot × Span), (kept.map (keptAt place)).lookup slot
      = (kept.lookup slot).map (fun s => ⟨place s.start, place s.stop⟩) := by
    intro kept
    induction kept with
    | nil => rfl
    | cons part kept ih =>
      rw [List.map_cons, List.lookup_cons, List.lookup_cons, ih, keptAt]
      cases slot == part.1 <;> rfl
  rw [Match.span, Match.span, Match.moved, hlookup]
  cases m.kept.lookup slot <;> rfl

/-- **A part of a match** is the same part, spelled anew. -/
theorem part_moved {t : Text} {m : Match} (hm : Found p t m) (slot : Slot) :
    (m.moved (r.place t)).part slot (r.text t) = r.inner (m.part slot t) := by
  rw [Match.part, span_moved]
  exact within_text t (hm.span_le slot).2

/-- A moved match covers what it covers, respelled. -/
theorem text_moved {t : Text} {m : Match} (hm : Found p t m) :
    (m.moved (r.place t)).text (r.text t) = r.inner (m.text t) :=
  slice_text t m.start hm.bounds.2

/-- A moved match is as many lines further down as were put in front. -/
theorem lineOf_moved {t : Text} {m : Match} (hm : Found p t m) :
    lineOf (r.text t) (m.moved (r.place t)).start = lineOf t m.start + r.front :=
  lineOf_text (Nat.le_trans hm.bounds.1 hm.bounds.2)

end Respacing

end ChartLint
