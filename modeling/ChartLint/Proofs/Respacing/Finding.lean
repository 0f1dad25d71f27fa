import ChartLint.Proofs.Respacing.Scan
import ChartLint.Proofs.Respacing.Window
import ChartLint.Proofs.Steps
import ChartLint.Rule.Alert
import ChartLint.Rule.Panel
import ChartLint.Rule.Series
import ChartLint.Rule.Tick

/-!
# Findings on a respaced script

A rule that reads the masked text makes the same findings on a respaced script, each on the line that
its line has become (`Respacing.moved`). Where a message quotes a stretch of the script, the quote may
hold a line break; messages are compared with the carriage returns of the respacing taken out
(`Respacing.shown`).
-/

namespace ChartLint

namespace Respacing

open Text Pattern Source Rule

variable {r : Respacing}

/-! ## Messages and lines -/

/-- A message without the carriage returns that the respacing puts into quotes. -/
def clean (r : Respacing) (s : String) : String :=
  if r.returns then String.ofList (s.toList.filter (· != '\r')) else s

/-- A finding with a clean message. -/
def shown (r : Respacing) (f : Finding) : Finding :=
  { f with message := r.clean f.message }

/-- A finding on the line that its line has become. -/
def moved (r : Respacing) (f : Finding) : Finding :=
  { f with line := r.lineNo f.line }

@[simp]
theorem clean_append (a b : String) : r.clean (a ++ b) = r.clean a ++ r.clean b := by
  unfold clean
  split
  · rw [String.toList_append, List.filter_append, String.ofList_append]
  · rfl

/-- Without carriage returns a respelled text is the text without its own. -/
theorem filter_inner (t : Text) : (r.inner t).filter (· != '\r') = t.filter (· != '\r') := by
  induction t with
  | nil => rfl
  | cons c t ih =>
    by_cases hc : c = '\n'
    · subst hc
      have hend : r.lineEnd.filter (· != '\r') = [] := by
        rw [List.filter_eq_nil_iff]
        intro d hd
        rw [mem_lineEnd hd]
        decide
      rw [inner_cons_feed, List.filter_append, hend, List.nil_append, List.filter_cons,
        List.filter_cons, ih]
    · rw [inner_cons_of_ne hc, List.filter_cons, List.filter_cons, ih]

/-- Texts that are spelled differently are the same when clean. -/
@[simp]
theorem clean_inner (t : Text) : r.clean (String.ofList (r.inner t)) = r.clean (String.ofList t) := by
  unfold clean
  split
  · rw [String.toList_ofList, String.toList_ofList, filter_inner]
  · next hr =>
    rw [inner_of_not_returns (by simpa using hr)]

/-- A quote in a message. -/
@[simp]
theorem clean_quote (t : Text) :
    r.clean (toString (String.ofList (r.inner t))) = r.clean (toString (String.ofList t)) :=
  clean_inner t

/-- A line moves down by the lines put in front. Only the whole script, line zero, stays where it
is. -/
theorem lineNo_of_pos {n : Nat} (h : 0 < n) : r.lineNo (n : Int) = ((n + r.front : Nat) : Int) := by
  rw [lineNo, if_neg (by omega)]
  push_cast
  rfl

/-- **The rule follows the script:** its findings move with the lines that they are on. -/
def Follows (r : Respacing) (find : Text → List Finding) : Prop :=
  ∀ t, r.Fits t → (find (r.text t)).map r.shown = (find t).map (r.shown ∘ r.moved)

/-! ### Steps that may fail -/

/-- **Alike:** the same findings on the lines that their lines have become, or the same reason for
giving up. -/
def Alike (r : Respacing) (found' found : Except Fault (List Finding)) : Prop :=
  found'.map (List.map r.shown) = found.map (List.map (r.shown ∘ r.moved))

/-- Findings that are alike are alike as outcomes. -/
theorem alike_ok {fs' fs : List Finding} (h : fs'.map r.shown = fs.map (r.shown ∘ r.moved)) :
    r.Alike (.ok fs') (.ok fs) :=
  congrArg Except.ok h

/-- What two steps that are alike go on with may use that their findings are. -/
theorem Alike.bind {found' found : Except Fault (List Finding)} (h : r.Alike found' found)
    {f' f : List Finding → Except Fault (List Finding)}
    (hf : ∀ fs' fs, fs'.map r.shown = fs.map (r.shown ∘ r.moved) → r.Alike (f' fs') (f fs)) :
    r.Alike (found' >>= f') (found >>= f) := by
  cases found' with
  | error fault' =>
    cases found with
    | error fault =>
      cases h
      rfl
    | ok fs => cases h
  | ok fs' =>
    cases found with
    | error fault => cases h
    | ok fs => exact hf fs' fs (Except.ok.inj h)

/-- What is made of findings that are alike may hang on them only up to where they are and how they
quote. -/
theorem Alike.map {found' found : Except Fault (List Finding)} (h : r.Alike found' found)
    {f' f : List Finding → List Finding}
    (hf : ∀ fs' fs, fs'.map r.shown = fs.map (r.shown ∘ r.moved) →
      (f' fs').map r.shown = (f fs).map (r.shown ∘ r.moved)) :
    r.Alike (found'.map f') (found.map f) := by
  have hbind : r.Alike (found' >>= fun fs' => .ok (f' fs')) (found >>= fun fs => .ok (f fs)) :=
    h.bind (fun fs' fs hfs => alike_ok (hf fs' fs hfs))
  cases found' <;> cases found <;> exact hbind

/-- Findings made match by match, where each match may have the rule give up. -/
theorem alike_filterMapM {p : Pattern} (hp : r.Steady p) {t : Text} (hfits : r.Fits t)
    {find' find : Match → Except Fault (Option Finding)}
    (h : ∀ m ∈ p.findAll t, (find' (m.moved (r.place t))).map (Option.map r.shown)
      = (find m).map (Option.map (r.shown ∘ r.moved))) :
    r.Alike ((p.findAll (r.text t)).filterMapM find') ((p.findAll t).filterMapM find) := by
  rw [findAll_text hp hfits]
  exact filterMapM_congr_view h

/-! ### Findings made match by match -/

/-- **A rule that asks one question of each match** follows the script if its question does: the
matches of a steady pattern are those of the script, moved. -/
theorem follows_flatMap {p : Pattern} {find : Text → Match → List Finding} (hp : r.Steady p)
    (h : ∀ t m, r.Fits t → Found p t m →
      (find (r.text t) (m.moved (r.place t))).map r.shown = (find t m).map (r.shown ∘ r.moved)) :
    r.Follows (fun t => (p.findAll t).flatMap (find t)) := by
  intro t hfits
  simp only
  rw [findAll_text hp hfits, List.flatMap_map, List.map_flatMap, List.map_flatMap]
  refine List.flatMap_congr (fun m hm => ?_)
  exact h t m hfits (found_of_mem_findAll hm)

/-- The same for a question with at most one finding as its answer. -/
theorem follows_filterMap {p : Pattern} {find : Text → Match → Option Finding} (hp : r.Steady p)
    (h : ∀ t m, r.Fits t → Found p t m →
      (find (r.text t) (m.moved (r.place t))).map r.shown = (find t m).map (r.shown ∘ r.moved)) :
    r.Follows (fun t => (p.findAll t).filterMap (find t)) := by
  intro t hfits
  simp only
  rw [findAll_text hp hfits, List.filterMap_map, List.map_filterMap, List.map_filterMap]
  refine List.filterMap_congr (fun m hm => ?_)
  exact h t m hfits (found_of_mem_findAll hm)

/-! ## Where a match starts -/

/-- A match starts between two parts of the script. -/
theorem exists_start {p : Pattern} {t : Text} {m : Match} (hm : Found p t m) :
    ∃ g x, t = g ++ x ∧ m.start = g.length ∧ (m.moved (r.place t)).start = (r.text g).length
      ∧ ∃ y, p.StartsAt y x := by
  obtain ⟨g, y, x, rfl, hmatch⟩ := hm
  obtain ⟨w, x', rfl, hacc, hstart, -⟩ := accepts_of_matchAt? hmatch
  refine ⟨g, w ++ x', rfl, hstart, ?_, y, w, x', rfl, hacc⟩
  rw [Match.moved, hstart, place_append]

/-- A finding on a match is on the line that the line of the match has become. -/
theorem lineOf_start {p : Pattern} {t : Text} {m : Match} (hm : Found p t m) :
    ((lineOf (r.text t) (m.moved (r.place t)).start : Nat) : Int) = r.lineNo (lineOf t m.start : Nat) :=
  lineNo_lineOf (Nat.le_trans hm.bounds.1 hm.bounds.2)

/-! ## Alerts -/

theorem steady_call : r.Steady Alert.call :=
  steady_of_isSteady (by decide)

theorem robust_realtime : r.Robust Alert.realtime :=
  robust_of_isRobust (by decide)

/-- **The findings on alerts** follow the script. Whether an alert is guarded is read in the lines
above it. -/
theorem follows_alert :
    r.Follows (fun masked => (Alert.call.findAll masked).filterMap (Alert.callFinding? masked)) := by
  refine follows_filterMap steady_call (fun t m hfits hm => ?_)
  obtain ⟨g, x, rfl, hstart, hstart', -⟩ := exists_start (r := r) hm
  have hline := lineOf_start (r := r) hm
  have hcontext := r.joined_contextOf g x Alert.lookback
  rw [hstart, hstart'] at hline
  unfold Alert.callFinding?
  simp only
  rw [hstart, hstart', occursIn_joined robust_realtime hcontext (fits_contextOf hfits _ _)]
  split
  · rfl
  · simp only [Option.map_some, Function.comp_apply, shown, moved, Finding.warning, hline]

/-! ## The panel -/

theorem steady_panel : r.Steady Panel.panel :=
  steady_of_isSteady (by decide)

theorem steady_earlyReturn : r.Steady Panel.earlyReturn :=
  steady_of_isSteady (by decide)

/-- The body of a method lies inside the text, so that it has a place in the respaced one. -/
theorem methodBody?_bounds {t method : Text} {body : Span} (h : methodBody? t method = some body) :
    body.start ≤ body.stop ∧ body.stop ≤ t.length := by
  unfold methodBody? at h
  split at h
  · cases h
  · obtain ⟨opener, hopener, rfl⟩ := Option.map_eq_some_iff.mp h
    exact matchingBrace_le (Nat.le_of_lt (indexFrom?_lt hopener).2)

/-- A match between two offsets lies between them. -/
theorem findWithin?_bounds {p : Pattern} {t : Text} {start stop : Nat} (hstart : start ≤ stop)
    (hstop : stop ≤ t.length) {m : Match} (h : p.findWithin? t start stop = some m) :
    start ≤ m.start ∧ m.start ≤ t.length := by
  obtain ⟨g, x, hrest, -, hmatch⟩ := findFrom?_eq_some.mp h
  obtain ⟨w, x', rfl, -, hm, -⟩ := accepts_of_matchAt? hmatch
  have hlength := congrArg List.length hrest
  simp only [Cursor.ofOffset, List.length_drop, List.length_take, List.length_append] at hlength hm
  omega

/-- **The findings on panels** follow the script. They are about the body of one method. -/
theorem follows_panel : r.Follows Panel.findings := by
  intro t hfits
  unfold Panel.findings
  rw [occursIn_text steady_panel hfits, methodBody?_text hfits]
  split
  · cases hbody : methodBody? t "OnBarUpdate".toList with
    | none => rfl
    | some body =>
      -- the search runs inside the body, and the early returns are counted in front of the panel
      obtain ⟨hle, hlength⟩ := methodBody?_bounds hbody
      simp only [Option.map_some, Option.bind_some, Panel.hiddenPanel?, span]
      rw [findWithin?_text hfits hle hlength steady_panel]
      cases hm : Panel.panel.findWithin? t body.start body.stop with
      | none => rfl
      | some m =>
        obtain ⟨hfrom, hto⟩ := findWithin?_bounds hle hlength hm
        simp only [Option.map_some, Match.moved]
        rw [findAllWithin_text hfits hfrom hto steady_earlyReturn, List.length_map]
        split
        · rfl
        · simp only [Option.toList_some, List.map_cons, List.map_nil, Function.comp_apply, shown,
            moved, Finding.info, lineNo_lineOf hto]
  · rfl

/-! ## Lines -/

/-- The lines of a respaced text are the empty ones put in front and those of the text, all but the
last with the end of a line. -/
theorem lines_text (t : Text) :
    lines (r.text t) = List.replicate r.front r.lineEnd
      ++ ((above t).reverse.map (· ++ r.lineEnd) ++ [lineFront t]) := by
  rw [lines_eq_above, above_text, lineFront_text, List.reverse_append, List.reverse_replicate,
    List.map_reverse, List.append_assoc]

/-! ## Signals on every tick -/

/-- Signals and guards are looked for line by line, so that their patterns may not see the end of a
line. -/
theorem robust_signal : r.Robust Tick.signal :=
  robust_of_isRobust (by decide)

theorem robust_barGuard : r.Robust Tick.barGuard :=
  robust_of_isRobust (by decide)

theorem steady_perTick : r.Steady Tick.perTick :=
  steady_of_isSteady (by decide)

theorem steady_tracking : r.Steady Tick.tracking :=
  steady_of_isSteady (by decide)

/-- A line signals unguarded where it does in the script: its own text differs at most by a carriage
return, and so do the lines around it. -/
theorem isUnguarded_text {t : Text} (hfits : r.Fits t) {n : Nat} {l l' : Text}
    (hl : (lines t)[n]? = some l) (hl' : (lines (r.text t))[n + r.front]? = some l') :
    Tick.isUnguarded (lines (r.text t)) (l', n + 1 + r.front) = Tick.isUnguarded (lines t) (l, n + 1) := by
  have hn : n + 1 ≤ (lines t).length := (List.getElem?_eq_some_iff.mp hl).1
  obtain ⟨g, x, rfl, hline⟩ := exists_lineOf (Nat.le_add_left 1 n) hn
  have hline' : lineOf (r.text (g ++ x)) (r.text g).length = n + 1 + r.front := by
    rw [← place_append g x, lineOf_text (by simp), hline]
  -- the two lines are the ones at the cut
  have hown := getElem?_lines_lineOf g x
  have hown' := getElem?_lines_lineOf (r.text g) (r.inner x)
  rw [← text_append, hline', Nat.add_right_comm, Nat.add_sub_cancel, hl', Option.some.injEq] at hown'
  rw [hline, Nat.add_sub_cancel, hl, Option.some.injEq] at hown
  have hcontext := occursIn_joined robust_barGuard (r.joined_contextOf g x Tick.lookback)
    (fits_contextOf hfits _ _)
  rw [hline, hline'] at hcontext
  have hsignal : Tick.signal.occursIn l' = Tick.signal.occursIn l := by
    rw [hown, hown']
    exact (congrArg _ (ownLine_text g x)).trans (occursIn_append_lineEnd robust_signal (ending_eq x))
  simp only [Tick.isUnguarded, hsignal, hcontext]

/-- The lines put in front do not signal. -/
theorem isUnguarded_front (ls : List Text) (n : Nat) : Tick.isUnguarded ls (r.lineEnd, n) = false := by
  have hempty := occursIn_append_lineEnd robust_signal (r := r) (t := []) (.inr rfl)
  rw [List.nil_append, show Tick.signal.occursIn [] = false by decide] at hempty
  simp only [Tick.isUnguarded, hempty, Bool.false_and]

/-- Numbered lists that a question sees alike, one entry after the other, have the same answers under
moved numbers. -/
theorem filter_zipIdx_moved {α β : Type} {q : α × Nat → Bool} {q' : β × Nat → Bool} (d : Nat) {xs : List α}
    {ys : List β} (hlength : ys.length = xs.length) (k : Nat)
    (h : ∀ {n : Nat} {x y}, xs[n]? = some x → ys[n]? = some y → q' (y, k + n + d) = q (x, k + n)) :
    ((ys.zipIdx (k + d)).filter q').map (·.2) = (((xs.zipIdx k).filter q).map (·.2)).map (· + d) := by
  induction xs generalizing ys k with
  | nil =>
    obtain rfl := List.length_eq_zero_iff.mp hlength
    rfl
  | cons x xs ih =>
    cases ys with
    | nil => cases hlength
    | cons y ys =>
      have hfirst : q' (y, k + d) = q (x, k) := @h 0 x y rfl rfl
      have hothers := ih (Nat.succ.inj hlength) (k + 1) (fun {n x y} hx hy => by
        have hlater := @h (n + 1) x y hx hy
        rwa [show k + (n + 1) = k + 1 + n by omega] at hlater)
      rw [Nat.add_right_comm] at hothers
      rw [List.zipIdx_cons, List.zipIdx_cons, List.filter_cons, List.filter_cons, hfirst]
      split
      · rw [List.map_cons, List.map_cons, List.map_cons, hothers]
      · exact hothers

/-- **The lines that signal without a guard** move with the script. -/
theorem unguarded_text {t : Text} (hfits : r.Fits t) :
    Tick.unguarded (lines (r.text t)) = (Tick.unguarded (lines t)).map (· + r.front) := by
  -- of the lines behind the front only their number and their places are needed here
  obtain ⟨rest, hrest⟩ : ∃ rest, lines (r.text t) = List.replicate r.front r.lineEnd ++ rest :=
    ⟨_, lines_text t⟩
  have hlength : rest.length = (lines t).length := by
    have hlines := congrArg List.length hrest
    rw [length_lines_text, List.length_append, List.length_replicate] at hlines
    omega
  have hfront : ((List.replicate r.front r.lineEnd).zipIdx 1).filter
      (Tick.isUnguarded (lines (r.text t))) = [] := by
    rw [List.filter_eq_nil_iff]
    intro ⟨l, n⟩ hmem
    obtain rfl := List.eq_of_mem_replicate (List.fst_mem_of_mem_zipIdx hmem)
    rw [isUnguarded_front]
    exact Bool.false_ne_true
  have hzip : (lines (r.text t)).zipIdx 1
      = (List.replicate r.front r.lineEnd).zipIdx 1 ++ rest.zipIdx (1 + r.front) := by
    rw [hrest, List.zipIdx_append, List.length_replicate]
  unfold Tick.unguarded
  rw [hzip, List.filter_append, hfront, List.nil_append]
  refine filter_zipIdx_moved r.front hlength 1 (fun {n l l'} hl hl' => ?_)
  rw [Nat.add_comm 1 n]
  refine isUnguarded_text hfits hl ?_
  rw [hrest, List.getElem?_append_right (by simp), List.length_replicate, Nat.add_sub_cancel, hl']

/-- **The findings on signals at every tick** follow the script: the same lines signal without a
guard, and the same patterns occur in the whole. -/
theorem follows_tick : r.Follows Tick.findings := by
  intro t hfits
  unfold Tick.findings
  rw [occursIn_text steady_perTick hfits, occursIn_text robust_signal.toSteady hfits,
    occursIn_text steady_tracking hfits, occursIn_text robust_barGuard.toSteady hfits,
    unguarded_text hfits]
  split
  · rfl
  · -- lines are counted from one, so that each of them moves
    have hpos : ∀ line ∈ Tick.unguarded (lines t), 0 < line := by
      intro line hline
      obtain ⟨⟨l, n⟩, hmem, rfl⟩ := List.mem_map.mp hline
      exact List.le_snd_of_mem_zipIdx (List.mem_of_mem_filter hmem)
    cases hlines : Tick.unguarded (lines t) with
    | nil => rfl
    | cons line others =>
      rw [hlines] at hpos
      show (((line :: others).map (· + r.front)).map Tick.lineFinding).map r.shown
        = ((line :: others).map Tick.lineFinding).map (r.shown ∘ r.moved)
      rw [List.map_map, List.map_map, List.map_map]
      refine List.map_congr_left (fun n hn => ?_)
      simp only [Function.comp_apply, Tick.lineFinding, Finding.warning, shown, moved,
        lineNo_of_pos (hpos n hn)]

/-! ## Balance -/

/-- No delimiter ends a line. -/
theorem after_terminator (depths : Balance.Depths) {c : Char} (hc : isTerminator c = true) :
    depths.after c = depths := by
  rcases (by simpa [isTerminator] using hc : c = '\n' ∨ c = '\r') with rfl | rfl <;> rfl

theorem strayAt?_terminator (depths : Balance.Depths) (line : Nat) {c : Char}
    (hc : isTerminator c = true) : Balance.strayAt? depths line c = none := by
  rcases (by simpa [isTerminator] using hc : c = '\n' ∨ c = '\r') with rfl | rfl <;> rfl

/-- Stray closers are met on the same lines, however line breaks are spelled. -/
theorem straysFrom_inner (depths : Balance.Depths) (line : Nat) (t : Text) :
    Balance.straysFrom depths line (r.inner t) = Balance.straysFrom depths line t := by
  induction t generalizing depths line with
  | nil => rfl
  | cons c t ih =>
    by_cases hc : c = '\n'
    · subst hc
      rw [inner_cons_feed, lineEnd]
      split
      · -- the carriage return is passed on the same line; the feed counts as before
        rw [List.singleton_append, Balance.straysFrom, strayAt?_terminator _ _ rfl,
          after_terminator _ rfl, if_neg (by decide)]
        rw [Balance.straysFrom, Balance.straysFrom, ih]
        rfl
      · rw [List.nil_append, Balance.straysFrom, Balance.straysFrom, ih]
    · rw [inner_cons_of_ne hc, Balance.straysFrom, Balance.straysFrom, ih]

/-- A stray closer on the line that its line has become. -/
def strayAt (r : Respacing) (s : Balance.Stray) : Balance.Stray :=
  ⟨s.delimiter, s.line + r.front⟩

/-- Counting lines from a later one moves every stray closer by as much. -/
theorem straysFrom_add (depths : Balance.Depths) (line k : Nat) (t : Text) :
    Balance.straysFrom depths (line + k) t
      = (Balance.straysFrom depths line t).map (fun s => ⟨s.delimiter, s.line + k⟩) := by
  induction t generalizing depths line with
  | nil => rfl
  | cons c t ih =>
    have hfirst : (Balance.strayAt? depths (line + k) c).toList
        = (Balance.strayAt? depths line c).toList.map (fun s => ⟨s.delimiter, s.line + k⟩) := by
      unfold Balance.strayAt?
      split
      · split <;> rfl
      · rfl
    have hnext : (if c = '\n' then line + k + 1 else line + k) = (if c = '\n' then line + 1 else line) + k := by
      split <;> omega
    rw [Balance.straysFrom, Balance.straysFrom, hfirst, hnext, ih, List.map_append]

/-- Empty lines in front have no closers and are counted. -/
theorem straysFrom_replicate (depths : Balance.Depths) (line n : Nat) (t : Text) :
    Balance.straysFrom depths line (List.replicate n '\n' ++ t)
      = Balance.straysFrom depths (line + n) t := by
  induction n generalizing line with
  | zero => rfl
  | succ n ih =>
    rw [List.replicate_succ, List.cons_append, Balance.straysFrom, strayAt?_terminator _ _ rfl,
      after_terminator _ rfl, if_pos rfl, ih, Nat.add_right_comm]
    rfl

/-- A respaced text is a text with empty lines put in front, respelled. -/
theorem text_eq_inner (t : Text) : r.text t = r.inner (List.replicate r.front '\n' ++ t) := by
  rw [inner_append]
  rfl

/-- **Stray closers** move with their lines. -/
theorem straysFrom_text (t : Text) :
    Balance.straysFrom .zero 1 (r.text t) = (Balance.straysFrom .zero 1 t).map r.strayAt := by
  rw [text_eq_inner, straysFrom_inner, straysFrom_replicate, straysFrom_add]
  rfl

/-- A stray closer is on no line before the one that is counted from. -/
theorem pos_of_mem_straysFrom {depths : Balance.Depths} {line : Nat} {t : Text} {s : Balance.Stray}
    (h : s ∈ Balance.straysFrom depths line t) : line ≤ s.line := by
  induction t generalizing depths line with
  | nil => cases h
  | cons c t ih =>
    rw [Balance.straysFrom] at h
    rcases List.mem_append.mp h with h | h
    · rw [Option.mem_toList, Balance.strayAt?] at h
      split at h
      · split at h
        · cases h
          exact Nat.le_refl line
        · cases h
      · cases h
    · have hle := ih h
      split at hle <;> omega

/-- Line terminators leave the depths as they are. -/
theorem foldl_after_terminators {v : Text} (hv : ∀ c ∈ v, isTerminator c = true)
    (depths : Balance.Depths) : v.foldl Balance.Depths.after depths = depths := by
  induction v generalizing depths with
  | nil => rfl
  | cons c v ih =>
    rw [List.foldl_cons, after_terminator depths (hv c List.mem_cons_self)]
    exact ih (fun d hd => hv d (List.mem_cons_of_mem c hd)) depths

/-- The depths behind a text do not depend on how its line breaks are spelled. -/
theorem foldl_after_inner (t : Text) (depths : Balance.Depths) :
    (r.inner t).foldl Balance.Depths.after depths = t.foldl Balance.Depths.after depths := by
  induction t generalizing depths with
  | nil => rfl
  | cons c t ih =>
    by_cases hc : c = '\n'
    · subst hc
      have hend : ∀ d ∈ r.lineEnd, isTerminator d = true := by
        intro d hd
        rw [mem_lineEnd hd]
        rfl
      rw [inner_cons_feed, List.foldl_append, foldl_after_terminators hend, List.foldl_cons, ih]
      rfl
    · rw [inner_cons_of_ne hc, List.foldl_cons, List.foldl_cons, ih]

/-- The delimiters that are open at the end are those of the script. -/
theorem openAtEnd_text (t : Text) : Balance.openAtEnd (r.text t) = Balance.openAtEnd t := by
  have hfront : ∀ c ∈ List.replicate r.front '\n', isTerminator c = true := by
    intro c hc
    rw [List.eq_of_mem_replicate hc]
    rfl
  rw [text_eq_inner, Balance.openAtEnd, foldl_after_inner, List.foldl_append,
    foldl_after_terminators hfront]
  rfl

/-- Lines with the same markers have the same region findings, on their own lines. -/
theorem regionFindingsFrom_map {ls ls' : List Text}
    (h : ls'.map Balance.regionMarker? = ls.map Balance.regionMarker?) {last : Nat} (hlast : 0 < last)
    (depth : Nat) {number : Nat} (hnumber : 0 < number) :
    Balance.regionFindingsFrom (last + r.front) depth (number + r.front) ls'
      = (Balance.regionFindingsFrom last depth number ls).map r.moved := by
  induction ls generalizing ls' depth number with
  | nil =>
    obtain rfl : ls' = [] := List.map_eq_nil_iff.mp h
    unfold Balance.regionFindingsFrom
    split
    · rfl
    · simp only [List.map_cons, List.map_nil, moved, Finding.warning, lineNo_of_pos hlast]
  | cons l ls ih =>
    cases ls' with
    | nil => cases h
    | cons l' ls' =>
      rw [List.map_cons, List.map_cons, List.cons.injEq] at h
      -- the depth that is carried on hangs on the marker alone
      have hdepth : Balance.regionDepthAfter depth l' = Balance.regionDepthAfter depth l := by
        rw [Balance.regionDepthAfter, Balance.regionDepthAfter, h.1]
      have hothers := ih h.2 (Balance.regionDepthAfter depth l) (Nat.succ_pos number)
      rw [Nat.succ_add] at hothers
      unfold Balance.regionFindingsFrom
      simp only [h.1, hdepth, List.map_append, hothers]
      congr 1
      split
      · simp only [List.map_cons, List.map_nil, moved, Finding.warning, lineNo_of_pos hnumber]
      · rfl

/-- Empty lines are no markers of regions. -/
theorem regionFindingsFrom_replicate (last depth number n : Nat) (ls : List Text) :
    Balance.regionFindingsFrom last depth number (List.replicate n r.lineEnd ++ ls)
      = Balance.regionFindingsFrom last depth (number + n) ls := by
  have hnone : Balance.regionMarker? r.lineEnd = none := by
    have h := regionMarker?_append (r := r) (l := []) (.inr rfl)
    rw [List.nil_append] at h
    rw [h]
    decide
  induction n generalizing number with
  | zero => rfl
  | succ n ih =>
    rw [List.replicate_succ, List.cons_append, Balance.regionFindingsFrom_cons_of_none hnone, ih,
      Nat.add_right_comm]
    rfl

/-- **The findings on regions** move with their lines, the one on the last line among them. -/
theorem regionFindings_text (t : Text) :
    Balance.regionFindings (r.text t) = (Balance.regionFindings t).map r.moved := by
  have hmarkers : ((above t).reverse.map (· ++ r.lineEnd) ++ [lineFront t]).map Balance.regionMarker?
      = (lines t).map Balance.regionMarker? := by
    rw [lines_eq_above t, List.map_append, List.map_append, List.map_map]
    congr 1
    exact List.map_congr_left (fun l _ => regionMarker?_append (.inr rfl))
  have hlength : 0 < (lines t).length := by
    rw [length_lines]
    omega
  unfold Balance.regionFindings
  simp only
  rw [length_lines_text]
  rw [lines_text, regionFindingsFrom_replicate]
  exact regionFindingsFrom_map hmarkers hlength 0 (Nat.succ_pos 0)

/-- **The findings on delimiters** move with their lines. Those on delimiters that stay open are on
the last line, which is the last line of the respaced script. -/
theorem delimiterFindings_text (t : Text) :
    Balance.delimiterFindings (r.text t) = (Balance.delimiterFindings t).map r.moved := by
  have hlength : 0 < (lines t).length := by
    rw [length_lines]
    omega
  unfold Balance.delimiterFindings
  rw [straysFrom_text, openAtEnd_text, length_lines_text, List.map_append, List.map_map, List.map_map,
    List.map_filterMap]
  congr 1
  · refine List.map_congr_left (fun s hs => ?_)
    have hpos := pos_of_mem_straysFrom hs
    simp only [Function.comp_apply, Balance.Stray.finding, strayAt, moved, Finding.error,
      lineNo_of_pos hpos]
  · refine List.filterMap_congr (fun d _ => ?_)
    unfold Balance.unclosed?
    simp only
    split
    · rfl
    · simp only [Option.map_some, moved, Finding.error, lineNo_of_pos hlength]

/-- **The findings on balance** follow the script. -/
theorem follows_balance :
    r.Follows (fun masked => Balance.delimiterFindings masked ++ Balance.regionFindings masked) := by
  intro t _
  simp only
  rw [delimiterFindings_text, regionFindings_text, ← List.map_append, List.map_map]

end Respacing

end ChartLint
