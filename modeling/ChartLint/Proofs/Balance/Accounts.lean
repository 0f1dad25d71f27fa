import ChartLint.Proofs.Balance
import ChartLint.Proofs.Balance.Pairing

/-!
# The accounts of the balance rule

The balance rule keeps one counter for each kind of delimiter and one for the regions, and all four
follow the law of `Pairing`. So its reports can be read off the script without a counter: for each
kind, one stray closer for every new low of openers less closers, on the line of the closer that makes
it, and one report at the end if something is left open; the same for the markers of regions, line by
line (`check_balance_accounts`). A script gets no report exactly if delimiters and regions balance.
-/

namespace ChartLint.Rule.Balance

open Text Lexing

/-! ## Delimiters -/

/-- The delimiters of one kind, as a pairing of characters. -/
def Delimiter.pairing (d : Delimiter) : Pairing Char where
  opens c := c == d.opener
  closes c := c == d.closer
  apart c hopen := by
    rw [beq_iff_eq.mp hopen]
    cases d <;> decide

/-- A character opens something, closes something, or is no delimiter. -/
theorem delimiter_cases (c : Char) :
    (∃ d : Delimiter, c = d.opener) ∨ (∃ d : Delimiter, c = d.closer)
      ∨ (Delimiter.ofOpener? c = none ∧ Delimiter.ofCloser? c = none) := by
  cases hopen : Delimiter.ofOpener? c with
  | some d =>
    have hfound := List.find?_some hopen
    exact .inl ⟨d, (beq_iff_eq.mp hfound).symm⟩
  | none =>
    cases hclose : Delimiter.ofCloser? c with
    | some d =>
      have hfound := List.find?_some hclose
      exact .inr (.inl ⟨d, (beq_iff_eq.mp hfound).symm⟩)
    | none => exact .inr (.inr ⟨rfl, rfl⟩)

/-- What is no delimiter belongs to no kind. -/
theorem pairing_of_none {c : Char} (hopen : Delimiter.ofOpener? c = none)
    (hclose : Delimiter.ofCloser? c = none) (d : Delimiter) :
    d.pairing.opens c = false ∧ d.pairing.closes c = false := by
  have hopener : c ≠ d.opener := by
    rintro rfl
    rw [ofOpener?_opener] at hopen
    cases hopen
  have hcloser : c ≠ d.closer := by
    rintro rfl
    rw [ofCloser?_closer] at hclose
    cases hclose
  exact ⟨beq_false_of_ne hopener, beq_false_of_ne hcloser⟩

/-- One character moves the depth of a kind as it moves the counter of the kind. -/
theorem Depths.get_after (depths : Depths) (c : Char) (d : Delimiter) :
    (depths.after c).get d = d.pairing.countAfter (depths.get d) c := by
  rcases delimiter_cases c with ⟨e, rfl⟩ | ⟨e, rfl⟩ | ⟨hopen, hclose⟩
  · cases d <;> cases e <;> rfl
  · cases d <;> cases e <;> rfl
  · obtain ⟨hopens, hcloses⟩ := pairing_of_none hopen hclose d
    rw [Depths.after, hopen, hclose, Pairing.countAfter, hopens, hcloses]
    rfl

theorem Depths.get_foldl (depths : Depths) (t : Text) (d : Delimiter) :
    (t.foldl Depths.after depths).get d = t.foldl d.pairing.countAfter (depths.get d) := by
  induction t generalizing depths with
  | nil => rfl
  | cons c t ih => rw [List.foldl_cons, List.foldl_cons, ih, get_after]

/-- The depth of a kind behind a text is its counter. -/
theorem get_openAtEnd (t : Text) (d : Delimiter) : (openAtEnd t).get d = d.pairing.openCount t := by
  rw [openAtEnd, Depths.get_foldl, Pairing.openCount]
  cases d <;> rfl

/-- The stray of a kind that a character is. -/
theorem filter_strayAt? (depths : Depths) (line : Nat) (c : Char) (d : Delimiter) :
    (strayAt? depths line c).toList.filter (·.delimiter == d)
      = if d.pairing.closes c && depths.get d == 0 then [⟨d, line⟩] else [] := by
  rcases delimiter_cases c with ⟨e, rfl⟩ | ⟨e, rfl⟩ | ⟨hopen, hclose⟩
  · have hcloses : d.pairing.closes e.opener = false := by cases d <;> cases e <;> rfl
    rw [strayAt?, ofCloser?_opener, hcloses]
    rfl
  · rw [strayAt?, ofCloser?_closer]
    by_cases hkind : e = d
    · subst hkind
      have hcloses : e.pairing.closes e.closer = true := beq_self_eq_true _
      by_cases hzero : depths.get e = 0 <;> simp [hcloses, hzero]
    · have hcloses : d.pairing.closes e.closer = false := by
        cases d <;> cases e <;> first | rfl | exact absurd rfl hkind
      by_cases hzero : depths.get e = 0 <;> simp [hcloses, hzero, hkind]
  · rw [strayAt?, hclose, (pairing_of_none hopen hclose d).2]
    rfl

theorem lineOf_concat {t : Text} {n : Nat} (h : n ≤ t.length) (c : Char) :
    lineOf (t ++ [c]) n = lineOf t n := by
  rw [lineOf, lineOf, List.take_append_of_le_length h]

/-- The strays of a kind in the front of a text, and those behind it. -/
theorem filter_straysFrom_append (d : Delimiter) (t rest : Text) :
    (straysFrom .zero 1 (t ++ rest)).filter (·.delimiter == d)
      = (d.pairing.strays t).map (fun n => ⟨d, lineOf t n⟩)
        ++ (straysFrom (t.foldl Depths.after .zero) (lineOf t t.length) rest).filter
          (·.delimiter == d) := by
  -- from the right, since the depths and the line behind the front are read off from all of it
  induction t using List.reverseRecOn generalizing rest with
  | nil => rfl
  | append_singleton t c ih =>
    have hdepth : (t.foldl Depths.after .zero).get d = d.pairing.openCount t := get_openAtEnd t d
    have hline : (if c = '\n' then lineOf t t.length + 1 else lineOf t t.length)
        = lineOf (t ++ [c]) (t ++ [c]).length := by
      rw [lineOf, lineOf, List.take_length, List.take_length, List.count_append,
        List.count_singleton]
      by_cases hc : c = '\n' <;> simp [hc]
    have hfront : (d.pairing.strays t).map (fun n => Stray.mk d (lineOf t n))
        = (d.pairing.strays t).map (fun n => ⟨d, lineOf (t ++ [c]) n⟩) := by
      refine List.map_congr_left fun n hn => ?_
      have hlt : n < t.length := List.mem_range.mp (List.mem_of_mem_filter hn)
      rw [lineOf_concat hlt.le]
    have hlast : (if d.pairing.closes c && d.pairing.openCount t == 0 then
          [Stray.mk d (lineOf t t.length)] else [])
        = (if d.pairing.closes c && d.pairing.openCount t == 0 then [t.length] else []).map
          (fun n => ⟨d, lineOf (t ++ [c]) n⟩) := by
      split
      · rw [List.map_singleton, lineOf_concat (Nat.le_refl _)]
      · rfl
    rw [List.append_assoc, List.singleton_append, ih, straysFrom, List.filter_append,
      filter_strayAt?, hdepth, hline, hfront, hlast, Pairing.strays_concat, List.map_append,
      List.append_assoc, List.foldl_append]
    rfl

/-- **The strays of a kind:** each makes a new low. -/
theorem filter_straysFrom (d : Delimiter) (t : Text) :
    (straysFrom .zero 1 t).filter (·.delimiter == d)
      = (List.range (d.pairing.deficit t)).map
        (fun j => ⟨d, lineOf t (d.pairing.firstAt t (j + 1) - 1)⟩) := by
  have happend := filter_straysFrom_append d t []
  rw [List.append_nil] at happend
  rw [happend, straysFrom, List.filter_nil, List.append_nil, Pairing.strays_eq, List.map_map]
  rfl

/-- The report on a kind of which the text leaves something open. -/
def Delimiter.leftOpen (d : Delimiter) (t : Text) : List Finding :=
  if d.pairing.surplus t = 0 then []
  else
    [.error (lines t).length
      s!"{d.pairing.surplus t} unclosed {d.label}(s) '{d.opener}' at end of file"]

theorem filterMap_unclosed? (t : Text) :
    Delimiter.all.filterMap (unclosed? (openAtEnd t) (lines t).length)
      = Delimiter.all.flatMap (·.leftOpen t) := by
  have hkind : ∀ d : Delimiter,
      (unclosed? (openAtEnd t) (lines t).length d).toList = d.leftOpen t := by
    intro d
    simp only [unclosed?, Delimiter.leftOpen, get_openAtEnd, Pairing.openCount_eq_surplus]
    split <;> rfl
  rw [List.filterMap_eq_flatMap_toList]
  exact List.flatMap_congr fun d _ => hkind d

/-! ## Regions -/

/-- The markers of regions, as a pairing of lines. -/
def regionPairing : Pairing Text where
  opens line := regionMarker? line == some .opens
  closes line := regionMarker? line == some .closes
  apart line hopen := by
    rw [beq_iff_eq.mp hopen]
    rfl

theorem regionDepthAfter_eq (depth : Nat) (line : Text) :
    regionDepthAfter depth line = regionPairing.countAfter depth line := by
  rw [regionDepthAfter, Pairing.countAfter]
  cases hmarker : regionMarker? line with
  | none => simp [regionPairing, hmarker]
  | some marker => cases marker <;> simp [regionPairing, hmarker]

/-- What a text says about its regions. -/
def regionReport (t : Text) : List Finding :=
  (List.range (regionPairing.deficit (lines t))).map
      (fun j => .warning (regionPairing.firstAt (lines t) (j + 1))
        "#endregion without matching #region")
    ++ if regionPairing.surplus (lines t) = 0 then []
      else
        [.warning (lines t).length s!"{regionPairing.surplus (lines t)} #region without #endregion"]

/-- The stray markers in the front of some lines, and the reports on the lines behind them. -/
theorem regionFindingsFrom_append (last : Nat) (ls rest : List Text) :
    regionFindingsFrom last 0 1 (ls ++ rest)
      = (regionPairing.strays ls).map
          (fun n => .warning (n + 1) "#endregion without matching #region")
        ++ regionFindingsFrom last (regionPairing.openCount ls) (ls.length + 1) rest := by
  induction ls using List.reverseRecOn generalizing rest with
  | nil => rfl
  | append_singleton ls line ih =>
    have hlast : (if regionPairing.openCount ls = 0 ∧ regionMarker? line = some .closes then
          [Finding.warning (ls.length + 1) "#endregion without matching #region"] else [])
        = (if regionPairing.closes line && regionPairing.openCount ls == 0 then [ls.length]
          else []).map (fun n => .warning (n + 1) "#endregion without matching #region") := by
      by_cases hmarker : regionMarker? line = some .closes
      · have hcloses : regionPairing.closes line = true := beq_iff_eq.mpr hmarker
        by_cases hzero : regionPairing.openCount ls = 0 <;> simp [hcloses, hzero, hmarker]
      · have hcloses : regionPairing.closes line = false := beq_false_of_ne hmarker
        simp [hcloses, hmarker]
    rw [List.append_assoc, List.singleton_append, ih, regionFindingsFrom, hlast,
      Pairing.strays_concat, List.map_append, Pairing.openCount_concat, regionDepthAfter_eq,
      List.append_assoc, List.length_append, List.length_singleton]

/-- **The reports on regions** follow the same law. -/
theorem regionFindings_eq (t : Text) : regionFindings t = regionReport t := by
  have happend := regionFindingsFrom_append (lines t).length (lines t) []
  rw [List.append_nil, Pairing.strays_eq, List.map_map, regionFindingsFrom,
    Pairing.openCount_eq_surplus] at happend
  rw [regionFindings, happend, regionReport]
  congr 1
  refine List.map_congr_left fun j _ => ?_
  rw [Function.comp_apply, Nat.sub_add_cancel (regionPairing.firstAt_pos (lines t) j)]

/-! ## The whole account -/

/-- **The accounts:** the rule reports stray closers, openers that are left open, and regions. Of each
kind of delimiter there are as many strays as openers less closers ever falls below zero, the `j`-th
of them where it first falls to `-j`; what is left open is reported once, on the last line. Nothing
is reported exactly if all delimiters and all regions balance. -/
theorem check_balance_accounts (code : Text) :
    let t := mask code
    ∃ strays : List Stray,
      Rule.balance.check (Source.ofCode code)
          = .ok ((strays.map Stray.finding ++ Delimiter.all.flatMap (·.leftOpen t)
            ++ regionReport t).map fun f => { f with check := "syntax" })
        ∧ (∀ d : Delimiter, strays.filter (·.delimiter == d)
          = (List.range (d.pairing.deficit t)).map
            fun j => ⟨d, lineOf t (d.pairing.firstAt t (j + 1) - 1)⟩)
        ∧ (Rule.balance.check (Source.ofCode code) = .ok []
          ↔ (∀ d : Delimiter, d.pairing.Balances t) ∧ regionPairing.Balances (lines t)) := by
  intro t
  have hcheck : Rule.balance.check (Source.ofCode code)
      = .ok (((straysFrom .zero 1 t).map Stray.finding ++ Delimiter.all.flatMap (·.leftOpen t)
        ++ regionReport t).map fun f => { f with check := "syntax" }) := by
    rw [← filterMap_unclosed?, ← regionFindings_eq]
    rfl
  refine ⟨straysFrom .zero 1 t, hcheck, fun d => filter_straysFrom d t, ?_⟩
  -- a stray of any kind shows up among the strays of its kind
  have hstrays : straysFrom .zero 1 t = [] ↔ ∀ d : Delimiter, d.pairing.deficit t = 0 := by
    constructor
    · intro hnil d
      have hfilter := filter_straysFrom d t
      rw [hnil, List.filter_nil, eq_comm, List.map_eq_nil_iff, List.range_eq_nil] at hfilter
      exact hfilter
    · intro hzero
      refine List.eq_nil_iff_forall_not_mem.mpr fun s hs => ?_
      have hfilter := filter_straysFrom s.delimiter t
      rw [hzero, List.range_zero, List.map_nil, List.filter_eq_nil_iff] at hfilter
      exact hfilter s hs (beq_self_eq_true _)
  have hopen : Delimiter.all.flatMap (·.leftOpen t) = []
      ↔ ∀ d : Delimiter, d.pairing.surplus t = 0 := by
    have hkind : ∀ d : Delimiter, d.leftOpen t = [] ↔ d.pairing.surplus t = 0 := by
      intro d
      simp [Delimiter.leftOpen]
    simp only [List.flatMap_eq_nil_iff, hkind]
    exact ⟨fun h d => h d (by cases d <;> simp [Delimiter.all]), fun h d _ => h d⟩
  have hregions : regionReport t = [] ↔ regionPairing.Balances (lines t) := by
    rw [Pairing.balances_iff]
    simp [regionReport]
  have hbalances : (∀ d : Delimiter, d.pairing.Balances t)
      ↔ (∀ d : Delimiter, d.pairing.deficit t = 0) ∧ ∀ d : Delimiter, d.pairing.surplus t = 0 := by
    simp only [Pairing.balances_iff, forall_and]
  rw [hcheck, Except.ok.injEq, List.map_eq_nil_iff, List.append_eq_nil_iff, List.append_eq_nil_iff,
    List.map_eq_nil_iff, hstrays, hopen, hregions, hbalances]

end ChartLint.Rule.Balance
