import ChartLint.Proofs.Pattern.Spelling
import ChartLint.Proofs.Text.Lines
import ChartLint.Proofs.Text.Trim
import ChartLint.Rule.Balance

/-!
# Insertions that keep the balance

What the balance rule says of a text, line numbers apart, follows from two readings of it: the
delimiters from the left, and the region markers from the top (`Alike.said`). A text that leaves
every depth as it was and closes nothing that it did not open is *level*: put anywhere, it changes
nothing of the first reading. Nothing of the second changes when the lines that it makes are no
markers, which is so for a line of its own (`alike_insert_line`) and for lines put behind the end of
a member (`alike_insert_behind`).
-/

namespace ChartLint

/-- What a finding says, wherever it says it. -/
def Finding.said (f : Finding) : Severity × String :=
  (f.severity, f.message)

namespace Rule.Balance

open Text

/-! ## Delimiters -/

/-- The character is one of the six delimiters. -/
def isDelimiter (c : Char) : Bool :=
  (Delimiter.ofOpener? c).isSome || (Delimiter.ofCloser? c).isSome

/-- The kinds of the stray closers, from the left. -/
def strayKinds : Depths → Text → List Delimiter
  | _, [] => []
  | depths, c :: rest =>
    ((strayAt? depths 0 c).map Stray.delimiter).toList ++ strayKinds (depths.after c) rest

theorem map_delimiter_strayAt? (depths : Depths) (line : Nat) (c : Char) :
    (strayAt? depths line c).map Stray.delimiter = (strayAt? depths 0 c).map Stray.delimiter := by
  unfold strayAt?
  split
  · split <;> rfl
  · rfl

theorem map_delimiter_straysFrom (depths : Depths) (line : Nat) (t : Text) :
    (straysFrom depths line t).map Stray.delimiter = strayKinds depths t := by
  induction t generalizing depths line with
  | nil => rfl
  | cons c rest ih =>
    rw [straysFrom, strayKinds, List.map_append, ih, ← map_delimiter_strayAt? depths line c]
    cases strayAt? depths line c <;> rfl

theorem strayKinds_append (depths : Depths) (a b : Text) :
    strayKinds depths (a ++ b) = strayKinds depths a ++ strayKinds (a.foldl Depths.after depths) b := by
  induction a generalizing depths with
  | nil => rfl
  | cons c a ih => rw [List.cons_append, strayKinds, strayKinds, ih, List.foldl_cons, List.append_assoc]

/-- **The text is level:** at any depths it leaves them as they were and has no stray closer. -/
def Level (v : Text) : Prop :=
  ∀ depths : Depths, v.foldl Depths.after depths = depths ∧ strayKinds depths v = []

theorem Level.append {v w : Text} (hv : Level v) (hw : Level w) : Level (v ++ w) := by
  intro depths
  rw [List.foldl_append, strayKinds_append, (hv depths).1, (hv depths).2]
  exact hw depths

theorem level_nil : Level [] :=
  fun _ => ⟨rfl, rfl⟩

theorem level_of_forall {v : Text} (h : ∀ c ∈ v, isDelimiter c = false) : Level v := by
  intro depths
  induction v with
  | nil => exact ⟨rfl, rfl⟩
  | cons c v ih =>
    have hc : Delimiter.ofOpener? c = none ∧ Delimiter.ofCloser? c = none := by
      simpa [isDelimiter] using h c (by simp)
    have hafter : depths.after c = depths := by
      rw [Depths.after, hc.1, hc.2]
    have hstray : strayAt? depths 0 c = none := by
      rw [strayAt?, hc.2]
    rw [List.foldl_cons, strayKinds, hafter, hstray]
    exact ih (fun d hd => h d (by simp [hd]))

/-- Only the delimiters of a text decide whether it is level. -/
theorem level_of_filter {v : Text} (h : Level (v.filter isDelimiter)) : Level v := by
  have hskip : ∀ depths : Depths,
      (v.filter isDelimiter).foldl Depths.after depths = v.foldl Depths.after depths
        ∧ strayKinds depths (v.filter isDelimiter) = strayKinds depths v := by
    clear h
    induction v with
    | nil => exact fun _ => ⟨rfl, rfl⟩
    | cons c v ih =>
      intro depths
      cases hc : isDelimiter c with
      | true =>
        rw [List.filter_cons_of_pos hc, List.foldl_cons, List.foldl_cons, strayKinds, strayKinds,
          (ih _).1, (ih _).2]
        exact ⟨rfl, rfl⟩
      | false =>
        obtain ⟨hafter, hkinds⟩ := level_of_forall (v := [c]) (by simpa using hc) depths
        have hsplit := strayKinds_append depths [c] v
        rw [hkinds, hafter, List.nil_append, List.singleton_append] at hsplit
        rw [List.filter_cons_of_neg (by simp [hc]), List.foldl_cons, hsplit]
        rw [List.foldl_cons, List.foldl_nil] at hafter
        rw [hafter]
        exact ih depths
  intro depths
  rw [← (hskip depths).1, ← (hskip depths).2]
  exact h depths

theorem ofOpener?_opener (d : Delimiter) : Delimiter.ofOpener? d.opener = some d := by
  cases d <;> rfl

theorem ofCloser?_opener (d : Delimiter) : Delimiter.ofCloser? d.opener = none := by
  cases d <;> rfl

theorem ofOpener?_closer (d : Delimiter) : Delimiter.ofOpener? d.closer = none := by
  cases d <;> rfl

theorem ofCloser?_closer (d : Delimiter) : Delimiter.ofCloser? d.closer = some d := by
  cases d <;> rfl

theorem Depths.set_get (depths : Depths) (d : Delimiter) (n : Nat) :
    (depths.set d n).set d (depths.get d) = depths := by
  cases d <;> rfl

/-- A pair of delimiters around level text is level. -/
theorem Level.enclosed {v : Text} (hv : Level v) (d : Delimiter) :
    Level (d.opener :: (v ++ [d.closer])) := by
  intro depths
  have hopen : depths.after d.opener = depths.set d (depths.get d + 1) := by
    rw [Depths.after, ofOpener?_opener]
  have hget : (depths.set d (depths.get d + 1)).get d = depths.get d + 1 := by
    rw [Depths.get_set, if_pos rfl]
  have hclose : (depths.set d (depths.get d + 1)).after d.closer = depths := by
    rw [Depths.after, ofOpener?_closer, ofCloser?_closer]
    simp only [hget, Nat.add_sub_cancel]
    exact depths.set_get d _
  obtain ⟨hfold, hkinds⟩ := hv (depths.set d (depths.get d + 1))
  constructor
  · rw [List.foldl_cons, List.foldl_append, hopen, hfold]
    exact hclose
  · have hfirst : strayAt? depths 0 d.opener = none := by
      rw [strayAt?, ofCloser?_opener]
    have hlast : strayAt? (depths.set d (depths.get d + 1)) 0 d.closer = none := by
      rw [strayAt?, ofCloser?_closer]
      simp only [hget]
      exact if_neg (Nat.succ_ne_zero _)
    rw [strayKinds, strayKinds_append, hopen, hfirst, hkinds, hfold, strayKinds, hlast]
    rfl

theorem said_unclosed? (depths : Depths) (last last' : Nat) (d : Delimiter) :
    (unclosed? depths last d).map Finding.said = (unclosed? depths last' d).map Finding.said := by
  unfold unclosed?
  simp only
  split <;> rfl

/-- What the reports on delimiters say follows from the stray closers and the open delimiters. -/
theorem said_delimiterFindings_congr {t t' : Text}
    (hstray : strayKinds .zero t = strayKinds .zero t') (hopen : openAtEnd t = openAtEnd t') :
    (delimiterFindings t).map Finding.said = (delimiterFindings t').map Finding.said := by
  have hkinds : ∀ ss : List Stray, (ss.map Stray.finding).map Finding.said
      = (ss.map Stray.delimiter).map (fun d => (Stray.mk d 0).finding.said) := by
    intro ss
    rw [List.map_map, List.map_map]
    rfl
  unfold delimiterFindings
  rw [List.map_append, List.map_append, hkinds, hkinds, map_delimiter_straysFrom,
    map_delimiter_straysFrom, hstray, hopen, List.map_filterMap, List.map_filterMap]
  simp only [said_unclosed? (openAtEnd t') (lines t).length (lines t').length]

/-! ## Regions -/

/-- The region markers of lines, from the top. -/
def markers (ls : List Text) : List RegionMarker :=
  ls.filterMap regionMarker?

theorem markers_append (ls ls' : List Text) : markers (ls ++ ls') = markers ls ++ markers ls' :=
  List.filterMap_append

theorem markers_of_forall {ls : List Text} (h : ∀ l ∈ ls, regionMarker? l = none) :
    markers ls = [] :=
  List.filterMap_eq_nil_iff.mpr h

/-- A line that is no marker says nothing and changes no depth. -/
theorem regionFindingsFrom_cons_of_none {line : Text} (h : regionMarker? line = none)
    (last depth number : Nat) (rest : List Text) :
    regionFindingsFrom last depth number (line :: rest)
      = regionFindingsFrom last depth (number + 1) rest := by
  rw [regionFindingsFrom, regionDepthAfter, h]
  simp

/-- What the reports on regions say, by the markers alone: each marker stands for the line that it
is on. -/
theorem said_regionFindingsFrom_congr {ls ls' : List Text} (h : markers ls = markers ls')
    (last last' depth number number' : Nat) :
    (regionFindingsFrom last depth number ls).map Finding.said
      = (regionFindingsFrom last' depth number' ls').map Finding.said := by
  induction ls generalizing ls' depth number number' with
  | nil =>
    have hnone : ∀ l ∈ ls', regionMarker? l = none := List.filterMap_eq_nil_iff.mp h.symm
    clear h
    induction ls' generalizing number' with
    | nil =>
      unfold regionFindingsFrom
      split <;> rfl
    | cons l ls' ih =>
      rw [regionFindingsFrom_cons_of_none (hnone l (by simp))]
      exact ih (number' + 1) (fun k hk => hnone k (by simp [hk]))
  | cons l ls ih =>
    cases hl : regionMarker? l with
    | none =>
      rw [markers, List.filterMap_cons_none hl] at h
      rw [regionFindingsFrom_cons_of_none hl]
      exact ih h depth (number + 1) number'
    | some marker =>
      rw [markers, List.filterMap_cons_some hl] at h
      -- the same marker stands in the other lines behind some that are none
      obtain ⟨front, l', rest, rfl, hfront, hl', hrest⟩ :=
        List.filterMap_eq_cons_iff.mp h.symm
      have hskip : ∀ (front : List Text) (n : Nat), (∀ k ∈ front, regionMarker? k = none) →
          ∃ m, regionFindingsFrom last' depth n (front ++ l' :: rest)
            = regionFindingsFrom last' depth m (l' :: rest) := by
        intro front
        induction front with
        | nil => exact fun n _ => ⟨n, rfl⟩
        | cons k front ihf =>
          intro n hnone
          rw [List.cons_append, regionFindingsFrom_cons_of_none (hnone k (by simp))]
          exact ihf (n + 1) (fun j hj => hnone j (by simp [hj]))
      obtain ⟨m, hm⟩ := hskip front number' hfront
      rw [hm, regionFindingsFrom, regionFindingsFrom, regionDepthAfter, regionDepthAfter, hl, hl',
        List.map_append, List.map_append, ih hrest.symm _ (number + 1) (m + 1)]
      congr 1
      split <;> rfl

/-! ## Lines that are no markers -/

theorem isPrefixOf_trimEndBy {w x : Text} (hw : w.any isBlank = false) :
    w.isPrefixOf (trimEndBy isBlank x) = w.isPrefixOf x := by
  obtain ⟨cut, hx, hblank⟩ := exists_trimEndBy_append isBlank x
  rw [Bool.eq_iff_iff, List.isPrefixOf_iff_prefix, List.isPrefixOf_iff_prefix]
  constructor
  · intro h
    rw [← hx]
    exact h.trans (List.prefix_append _ _)
  · rintro ⟨r, hr⟩
    rw [← hx] at hr
    rcases List.append_eq_append_iff.mp hr with ⟨s, hs, -⟩ | ⟨s, hs, hrest⟩
    · exact ⟨s, hs.symm⟩
    · cases s with
      | nil => exact ⟨[], by rw [hs, List.append_nil, List.append_nil]⟩
      | cons c s =>
        -- the piece would go on with a blank
        have hcw : c ∈ w := by rw [hs]; simp
        have hcb : c ∈ cut := by rw [hrest]; simp
        exact absurd (hblank c hcb) (List.any_eq_false.mp hw c hcw)

/-- A marker is looked for behind the blanks at the start of its line. -/
theorem regionMarker?_eq (line : Text) :
    regionMarker? line =
      if "#endregion".toList.isPrefixOf (line.dropWhile isBlank) then some .closes
      else if "#region".toList.isPrefixOf (line.dropWhile isBlank) then some .opens
      else none := by
  have htrim : ∀ w : Text, w.any isBlank = false →
      w.isPrefixOf (trim line) = w.isPrefixOf (line.dropWhile isBlank) :=
    fun w hw => isPrefixOf_trimEndBy hw
  simp only [regionMarker?, htrim "#endregion".toList (by decide), htrim "#region".toList (by decide)]

theorem regionMarker?_of_head? {line : Text} (h : (line.dropWhile isBlank).head? ≠ some '#') :
    regionMarker? line = none := by
  have hno : ∀ w : Text, w.head? = some '#' → w.isPrefixOf (line.dropWhile isBlank) = false := by
    intro w hw
    rw [Bool.eq_false_iff]
    intro hpre
    obtain ⟨r, hr⟩ := List.isPrefixOf_iff_prefix.mp hpre
    rw [← hr, List.head?_append, hw] at h
    exact h rfl
  rw [regionMarker?_eq, hno _ (by decide), hno _ (by decide)]
  rfl

theorem regionMarker?_of_not_mem {line : Text} (h : '#' ∉ line) : regionMarker? line = none := by
  apply regionMarker?_of_head?
  intro hhead
  exact h ((List.dropWhile_suffix isBlank).subset (List.mem_of_head? hhead))

/-- A character that is neither blank nor in a marker's word ends what a marker is read from. -/
theorem regionMarker?_cut {c : Char} (hblank : isBlank c = false) (hc : c ∉ "#endregion".toList)
    (f r : Text) : regionMarker? (f ++ c :: r) = regionMarker? (f ++ [c]) := by
  have hdrop : ∀ r, (f ++ c :: r).dropWhile isBlank = f.dropWhile isBlank ++ c :: r := by
    intro r
    rw [List.dropWhile_append]
    split
    · next hnil => simp [List.isEmpty_iff.mp hnil, hblank]
    · rfl
  have hprefix : ∀ w : Text, c ∉ w → ∀ r, w.isPrefixOf (f.dropWhile isBlank ++ c :: r)
      = w.isPrefixOf (f.dropWhile isBlank) := by
    intro w hw r
    rw [Bool.eq_iff_iff, List.isPrefixOf_iff_prefix, List.isPrefixOf_iff_prefix]
    constructor
    · rintro ⟨s, hs⟩
      obtain ⟨u, hu, -⟩ := Pattern.eq_append_of_not_mem hs hw
      exact ⟨u, hu.symm⟩
    · exact fun h => h.trans (List.prefix_append _ _)
  have hregion : c ∉ "#region".toList := by
    intro hmem
    exact hc ((by decide : "#region".toList ⊆ "#endregion".toList) hmem)
  rw [regionMarker?_eq, regionMarker?_eq, hdrop, hdrop, hprefix _ hc, hprefix _ hc,
    hprefix _ hregion, hprefix _ hregion]

/-! ## Insertions -/

/-- **The balance rule reads the two texts alike**, line numbers apart. -/
structure Alike (t t' : Text) : Prop where
  strays : strayKinds .zero t = strayKinds .zero t'
  opened : openAtEnd t = openAtEnd t'
  markers : markers (lines t) = markers (lines t')

theorem Alike.refl (t : Text) : Alike t t :=
  ⟨rfl, rfl, rfl⟩

theorem Alike.trans {t t' t'' : Text} (h : Alike t t') (h' : Alike t' t'') : Alike t t'' :=
  ⟨h.strays.trans h'.strays, h.opened.trans h'.opened, h.markers.trans h'.markers⟩

/-- Texts that are read alike get the same remarks. -/
theorem Alike.said {t t' : Text} (h : Alike t t') :
    (delimiterFindings t ++ regionFindings t).map Finding.said
      = (delimiterFindings t' ++ regionFindings t').map Finding.said := by
  rw [List.map_append, List.map_append, said_delimiterFindings_congr h.strays h.opened]
  exact congrArg _ (said_regionFindingsFrom_congr h.markers _ _ _ _ _)

/-- Level text can stand anywhere, as far as delimiters are concerned. -/
theorem alike_of_level {v : Text} (hv : Level v) {a b : Text}
    (hmarkers : Balance.markers (lines (a ++ v ++ b)) = Balance.markers (lines (a ++ b))) :
    Alike (a ++ v ++ b) (a ++ b) where
  strays := by
    rw [List.append_assoc, strayKinds_append, strayKinds_append, strayKinds_append, (hv _).1,
      (hv _).2, List.nil_append]
  opened := by
    rw [openAtEnd, openAtEnd, List.foldl_append, List.foldl_append, List.foldl_append, (hv _).1]
  markers := hmarkers

/-- **A level line** that is no marker can stand between any two lines. -/
theorem alike_insert_line {a line : Text} (ha : lineFront a = []) (hfeed : '\n' ∉ line)
    (hline : regionMarker? line = none) (hlevel : Level (line ++ ['\n'])) (b : Text) :
    Alike (a ++ (line ++ ['\n']) ++ b) (a ++ b) := by
  have hlines : ∀ x, lines (a ++ x) = (above a).reverse ++ lines x := by
    intro x
    rw [lines_append, ha, List.nil_append, ← lines_eq_lineBack]
  apply alike_of_level hlevel
  have hcut : a ++ (line ++ ['\n']) ++ b = a ++ (line ++ '\n' :: b) := by simp
  have hnone : markers [line] = [] := markers_of_forall (by simpa using hline)
  rw [hcut, hlines, hlines, lines_append_feed, lines_of_not_mem hfeed, markers_append,
    markers_append, markers_append, hnone, List.nil_append]

/-- A character that a region marker's line can be cut behind. -/
def cutsMarker (c : Char) : Bool :=
  !isBlank c && !"#endregion".toList.contains c

/-- **Level lines** can stand behind the end of a member, if what they end with ends a member. -/
theorem alike_insert_behind {v : Text} {c d : Char} (hlevel : Level v) (hc : cutsMarker c = true)
    (hd : cutsMarker d = true) (hlast : v.getLast? = some d) (hfeed : '\n' ∈ v) (hhash : '#' ∉ v)
    (a b : Text) : Alike (a ++ [c] ++ v ++ b) (a ++ [c] ++ b) := by
  have hcut : ∀ {e : Char}, cutsMarker e = true → e ≠ '\n' ∧ ∀ f r,
      regionMarker? (f ++ [e] ++ r) = regionMarker? (f ++ [e]) := by
    intro e he
    simp only [cutsMarker, Bool.and_eq_true, Bool.not_eq_true', List.contains_eq_mem,
      decide_eq_false_iff_not] at he
    refine ⟨?_, fun f r => ?_⟩
    · rintro rfl
      cases he.1
    · rw [List.append_assoc, List.singleton_append]
      exact regionMarker?_cut he.1 he.2 f r
  obtain ⟨front, rfl⟩ := List.getLast?_eq_some_iff.mp hlast
  have hd' : '\n' ∉ [d] := by simpa using (hcut hd).1.symm
  have hc' : '\n' ∉ [c] := by simpa using (hcut hc).1.symm
  -- the lines that the insertion makes are parts of it, so none of them holds a number sign
  have hnone : ∀ l ∈ above (front ++ [d]), regionMarker? l = none := by
    intro l hl
    refine regionMarker?_of_not_mem (fun hmem => hhash ?_)
    exact mem_of_mem_lines (List.dropLast_subset _ (List.mem_reverse.mp hl)) hmem
  have hlastLine : regionMarker? (lineFront front ++ [d]) = none := by
    refine regionMarker?_of_not_mem (fun hmem => hhash ?_)
    refine mem_of_mem_lines (l := lineFront front ++ [d]) ?_ hmem
    rw [lines_eq_above, lineFront_append front hd']
    simp
  have hline : ∀ x, Balance.markers (lines (a ++ [c] ++ x))
      = Balance.markers (above a).reverse ++ ((regionMarker? (lineFront a ++ [c])).toList
        ++ Balance.markers (lines x).tail) := by
    intro x
    have hcons : ∀ (l : Text) (ls : List Text), Balance.markers (l :: ls)
        = (regionMarker? l).toList ++ Balance.markers ls := by
      intro l ls
      rw [Balance.markers, List.filterMap_cons]
      cases regionMarker? l <;> rfl
    rw [lines_append, above_append a hc', lineFront_append a hc', markers_append, hcons,
      (hcut hc).2]
  apply alike_of_level hlevel
  rw [List.append_assoc, hline, hline]
  congr 2
  have hne : (above (front ++ [d])).reverse ≠ [] := by
    intro hnil
    have hlen := length_above (front ++ [d])
    rw [List.reverse_eq_nil_iff.mp hnil] at hlen
    exact absurd hfeed (List.count_eq_zero.mp hlen.symm)
  rw [lines_append, List.tail_append_of_ne_nil hne, markers_append,
    markers_of_forall (fun l hl => hnone l (List.mem_reverse.mp (List.mem_of_mem_tail hl))),
    lineFront_append front hd', List.nil_append, Balance.markers, List.filterMap_cons_none]
  · rfl
  · rw [(hcut hd).2, hlastLine]

end Rule.Balance

end ChartLint
