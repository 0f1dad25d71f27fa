import ChartLint.Text.Basic
import Mathlib.Data.List.Nodup
import Mathlib.Data.List.Perm.Basic

/-!
# Edits of a text

Edits of one text can be made at once, each at the offsets of the text as it was (`atOnce`), or one
after the other from the right (`spliceAll`), so that the offsets of those to come stay valid. The two
agree where the edits give words of the text a new spelling. Such a text is laid out in pieces
(`layout`): a piece is what stands in front of a word and the key of the word, so that a change of
spelling is a change of the function from keys to words. Made at once, the edits change the spelling
of all words (`atOnceFrom_layout`); from the right, that of the words of one key (`spliceAll_layout`),
in a script as well as in its mask.
-/

namespace ChartLint.Text

/-! ## Splices -/

/-- Text at its offset is replaced by a splice. -/
theorem splice_append (a u b new : Text) :
    splice (a ++ u ++ b) a.length (a.length + u.length) new = a ++ new ++ b := by
  rw [splice, ← List.length_append, List.drop_left, List.append_assoc a u b, List.take_left]

/-- What a splice does to the number of times a character stands in a text. -/
theorem count_splice (c : Char) (t : Text) {start stop : Nat} (hle : start ≤ stop) (new : Text) :
    (splice t start stop new).count c + (t.slice start stop).count c
      = t.count c + new.count c := by
  have hparts : t.take start ++ (t.slice start stop ++ t.drop stop) = t := by
    have hfront : t.take start = (t.take stop).take start := by
      rw [List.take_take, Nat.min_eq_left hle]
    rw [slice, ← List.append_assoc, hfront, List.take_append_drop, List.take_append_drop]
  have hcount := congrArg (List.count c) hparts
  simp only [List.count_append] at hcount
  simp only [splice, List.count_append]
  omega

/-! ## Edits made at once -/

/-- A new text for the characters from `start` up to `stop`. -/
structure Edit where
  start : Nat
  stop : Nat
  new : Text
deriving DecidableEq, Repr

namespace Edit

/-- The edit takes the character at an offset away. -/
def covers (e : Edit) (offset : Nat) : Bool :=
  decide (e.start ≤ offset) && decide (offset < e.stop)

/-- One of the two edits ends where or before the other one starts. -/
def Apart (e e' : Edit) : Prop :=
  e.stop ≤ e'.start ∨ e'.stop ≤ e.start

theorem Apart.symm {e e' : Edit} (h : e.Apart e') : e'.Apart e :=
  Or.symm h

end Edit

/-- What edits put in front of the character at an offset. -/
def putAt (edits : List Edit) (offset : Nat) : Text :=
  (edits.filter (·.start == offset)).flatMap (·.new)

/-- Makes edits at once, in the text behind an offset. -/
def atOnceFrom (edits : List Edit) : Nat → Text → Text
  | offset, [] => putAt edits offset
  | offset, c :: t =>
    putAt edits offset ++ ((if edits.any (·.covers offset) then [] else [c])
      ++ atOnceFrom edits (offset + 1) t)

/-- Makes edits at once: each character of the text is kept unless an edit covers its offset, and
the new texts stand where their edits start. -/
def atOnce (edits : List Edit) (t : Text) : Text :=
  atOnceFrom edits 0 t

/-- Makes edits one after the other, the last one first. -/
def spliceAll (edits : List Edit) (t : Text) : Text :=
  edits.foldr (fun e t => splice t e.start e.stop e.new) t

theorem putAt_perm {edits edits' : List Edit} (h : edits.Perm edits')
    (hone : edits.Pairwise fun e e' => e.start ≠ e'.start) (offset : Nat) :
    putAt edits offset = putAt edits' offset := by
  have hfilter := h.filter (·.start == offset)
  have hfound := hone.filter (·.start == offset)
  have hstart : ∀ e ∈ edits.filter (·.start == offset), e.start = offset :=
    fun e he => beq_iff_eq.mp (List.mem_filter.mp he).2
  rw [putAt, putAt]
  cases hcase : edits.filter (·.start == offset) with
  | nil =>
    rw [hcase] at hfilter
    rw [List.nil_perm.mp hfilter]
  | cons e others =>
    rw [hcase] at hfilter hfound hstart
    have hnone : others = [] := by
      refine List.eq_nil_iff_forall_not_mem.mpr fun e' he' => ?_
      have hne := (List.pairwise_cons.mp hfound).1 e' he'
      rw [hstart e (by simp), hstart e' (by simp [he'])] at hne
      exact hne rfl
    rw [hnone] at hfilter ⊢
    rw [List.singleton_perm.mp hfilter]

/-- **The order of edits does not matter**, as long as no two of them start at the same offset. -/
theorem atOnce_perm {edits edits' : List Edit} (h : edits.Perm edits')
    (hone : edits.Pairwise fun e e' => e.start ≠ e'.start) (t : Text) :
    atOnce edits t = atOnce edits' t := by
  have hfrom : ∀ offset, atOnceFrom edits offset t = atOnceFrom edits' offset t := by
    induction t with
    | nil => exact putAt_perm h hone
    | cons c t ih =>
      intro offset
      rw [atOnceFrom, atOnceFrom, putAt_perm h hone, h.any_eq, ih]
  exact hfrom 0

theorem putAt_of_lt {edits : List Edit} {offset : Nat} (h : ∀ e ∈ edits, offset < e.start) :
    putAt edits offset = [] := by
  have hnone : edits.filter (·.start == offset) = [] := by
    refine List.filter_eq_nil_iff.mpr fun e he => ?_
    have hlt := h e he
    rw [beq_iff_eq]
    omega
  rw [putAt, hnone]
  rfl

theorem not_covers_of_lt {edits : List Edit} {offset : Nat} (h : ∀ e ∈ edits, offset < e.start) :
    edits.any (·.covers offset) = false := by
  refine List.any_eq_false.mpr fun e he => ?_
  have hlt := h e he
  simp only [Edit.covers, Bool.and_eq_true, decide_eq_true_eq]
  omega

/-- In front of all edits the text stays. -/
theorem atOnceFrom_append {edits : List Edit} {g : Text} {offset : Nat}
    (h : ∀ e ∈ edits, offset + g.length ≤ e.start) (t : Text) :
    atOnceFrom edits offset (g ++ t) = g ++ atOnceFrom edits (offset + g.length) t := by
  induction g generalizing offset with
  | nil => rfl
  | cons c g ih =>
    rw [List.length_cons] at h
    have hlt : ∀ e ∈ edits, offset < e.start := by
      intro e he
      have hle := h e he
      omega
    have hlater : ∀ e ∈ edits, offset + 1 + g.length ≤ e.start := by
      intro e he
      have hle := h e he
      omega
    rw [List.cons_append, atOnceFrom, putAt_of_lt hlt, not_covers_of_lt hlt, ih hlater, List.length_cons,
      Nat.add_assoc, Nat.add_comm 1]
    rfl

/-- Behind an edit it does not matter. -/
theorem atOnceFrom_behind {e : Edit} {edits : List Edit} {offset : Nat} (hstart : e.start < offset)
    (hstop : e.stop ≤ offset) (t : Text) :
    atOnceFrom (e :: edits) offset t = atOnceFrom edits offset t := by
  have hput : ∀ n, offset ≤ n → putAt (e :: edits) n = putAt edits n := by
    intro n hn
    have hne : (e.start == n) = false := beq_false_of_ne (by omega)
    rw [putAt, List.filter_cons, hne]
    rfl
  induction t generalizing offset with
  | nil => exact hput offset (Nat.le_refl _)
  | cons c t ih =>
    have hcovers : e.covers offset = false := by
      simp only [Edit.covers, Bool.and_eq_false_iff, decide_eq_false_iff_not]
      omega
    rw [atOnceFrom, atOnceFrom, hput offset (Nat.le_refl _), List.any_cons, hcovers, Bool.false_or,
      ih (by omega) (by omega) fun n hn => hput n (by omega)]

/-- An edit takes away what it covers, and no other one that starts behind it shows there. -/
theorem atOnceFrom_covered {e : Edit} {edits : List Edit} {w : Text} {offset : Nat}
    (hstart : e.start < offset) (hstop : offset + w.length = e.stop)
    (h : ∀ e' ∈ edits, e.stop ≤ e'.start) (t : Text) :
    atOnceFrom (e :: edits) offset (w ++ t) = atOnceFrom edits e.stop t := by
  induction w generalizing offset with
  | nil =>
    obtain rfl : offset = e.stop := hstop
    exact atOnceFrom_behind hstart (Nat.le_refl _) t
  | cons c w ih =>
    rw [List.length_cons] at hstop
    have hput : putAt (e :: edits) offset = [] := by
      have hne : (e.start == offset) = false := beq_false_of_ne (by omega)
      have hlater : putAt edits offset = [] := putAt_of_lt fun e' he' => by
        have hle := h e' he'
        omega
      rw [putAt, List.filter_cons, hne]
      exact hlater
    have hcovers : e.covers offset = true := by
      simp only [Edit.covers, Bool.and_eq_true, decide_eq_true_eq]
      omega
    rw [List.cons_append, atOnceFrom, hput, List.any_cons, hcovers, Bool.true_or,
      ih (by omega) (by omega)]
    rfl

/-- **An edit at its place** puts its new text there and takes the old one away. -/
theorem atOnceFrom_edit {e : Edit} {edits : List Edit} {w : Text} (hne : w ≠ [])
    (hstop : e.stop = e.start + w.length) (h : ∀ e' ∈ edits, e.stop ≤ e'.start) (t : Text) :
    atOnceFrom (e :: edits) e.start (w ++ t) = e.new ++ atOnceFrom edits e.stop t := by
  obtain ⟨c, w, rfl⟩ := List.exists_cons_of_ne_nil hne
  rw [List.length_cons] at hstop
  have hput : putAt (e :: edits) e.start = e.new := by
    have hlater : putAt edits e.start = [] := putAt_of_lt fun e' he' => by
      have hle := h e' he'
      omega
    rw [putAt] at hlater
    rw [putAt, List.filter_cons, beq_self_eq_true, if_pos rfl, List.flatMap_cons, hlater,
      List.append_nil]
  have hcovers : e.covers e.start = true := by
    simp only [Edit.covers, Bool.and_eq_true, decide_eq_true_eq]
    omega
  rw [List.cons_append, atOnceFrom, hput, List.any_cons, hcovers, Bool.true_or,
    atOnceFrom_covered (by omega) (by omega) h]
  rfl

/-! ## Texts laid out in pieces -/

section Layout

variable {κ : Type}

/-- Pieces and a rest as one text: a piece is the text in front of a word and the key of the word. -/
def layout (word : κ → Text) : List (Text × κ) → Text → Text
  | [], rest => rest
  | (gap, key) :: pieces, rest => gap ++ (word key ++ layout word pieces rest)

/-- What is seen of pieces when only the lengths of their texts are known. -/
def outline (pieces : List (Text × κ)) : List (Nat × κ) :=
  pieces.map fun piece => (piece.1.length, piece.2)

/-- Where a word stands. -/
structure Place (κ : Type) where
  key : κ
  start : Nat
  stop : Nat

/-- The places of the words in a text that is laid out behind an offset. -/
def places (word : κ → Text) : Nat → List (Nat × κ) → List (Place κ)
  | _, [] => []
  | offset, (gap, key) :: others =>
    ⟨key, offset + gap, offset + gap + (word key).length⟩
      :: places word (offset + gap + (word key).length) others

/-- The edit that gives the word at a place a new spelling. -/
def Place.edit (new : κ → Text) (p : Place κ) : Edit :=
  ⟨p.start, p.stop, new p.key⟩

theorem layout_congr {word word' : κ → Text} {pieces : List (Text × κ)}
    (h : ∀ key ∈ pieces.map Prod.snd, word key = word' key) (rest : Text) :
    layout word pieces rest = layout word' pieces rest := by
  induction pieces with
  | nil => rfl
  | cons piece pieces ih =>
    obtain ⟨gap, key⟩ := piece
    rw [layout, layout, h key (by simp), ih fun other hother => h other (by simp [hother])]

theorem map_snd_outline (pieces : List (Text × κ)) :
    (outline pieces).map Prod.snd = pieces.map Prod.snd := by
  rw [outline, List.map_map]
  rfl

theorem map_key_places (word : κ → Text) (offset : Nat) (spots : List (Nat × κ)) :
    (places word offset spots).map Place.key = spots.map Prod.snd := by
  induction spots generalizing offset with
  | nil => rfl
  | cons spot spots ih =>
    obtain ⟨gap, key⟩ := spot
    rw [places, List.map_cons, List.map_cons, ih]

theorem le_start_of_mem_places {word : κ → Text} {offset : Nat} {spots : List (Nat × κ)}
    {p : Place κ} (hp : p ∈ places word offset spots) : offset ≤ p.start := by
  induction spots generalizing offset with
  | nil => cases hp
  | cons spot spots ih =>
    obtain ⟨gap, key⟩ := spot
    rcases List.mem_cons.mp hp with rfl | hp
    · exact Nat.le_add_right _ _
    · have hlater := ih hp
      omega

/-- The words stand one behind the other. -/
theorem pairwise_places (word : κ → Text) (offset : Nat) (spots : List (Nat × κ)) :
    (places word offset spots).Pairwise fun p p' => p.stop ≤ p'.start := by
  induction spots generalizing offset with
  | nil => exact List.Pairwise.nil
  | cons spot spots ih =>
    obtain ⟨gap, key⟩ := spot
    exact List.pairwise_cons.mpr ⟨fun p hp => le_start_of_mem_places hp, ih _⟩

theorem start_lt_of_mem_places {word : κ → Text} (hne : ∀ key, word key ≠ []) {offset : Nat}
    {spots : List (Nat × κ)} {p : Place κ} (hp : p ∈ places word offset spots) : p.start < p.stop := by
  induction spots generalizing offset with
  | nil => cases hp
  | cons spot spots ih =>
    obtain ⟨gap, key⟩ := spot
    rcases List.mem_cons.mp hp with rfl | hp
    · have hpos := List.length_pos_iff.mpr (hne key)
      show offset + gap < offset + gap + (word key).length
      omega
    · exact ih hp

/-- **Made at once**, the edits of all words change the spelling of the text. -/
theorem atOnceFrom_layout {word : κ → Text} (hne : ∀ key, word key ≠ []) (new : κ → Text)
    (offset : Nat) (pieces : List (Text × κ)) (rest : Text) :
    atOnceFrom ((places word offset (outline pieces)).map (Place.edit new)) offset
      (layout word pieces rest) = layout new pieces rest := by
  induction pieces generalizing offset with
  | nil =>
    have hnone : ∀ e ∈ ([] : List Edit), offset + rest.length ≤ e.start := by simp
    have hkept := atOnceFrom_append hnone []
    rw [List.append_nil] at hkept
    show atOnceFrom [] offset rest = rest
    rw [hkept, atOnceFrom]
    exact List.append_nil rest
  | cons piece pieces ih =>
    obtain ⟨gap, key⟩ := piece
    have hlater : ∀ e ∈ (places word (offset + gap.length + (word key).length)
        (outline pieces)).map (Place.edit new), offset + gap.length + (word key).length ≤ e.start := by
      intro e he
      obtain ⟨p, hp, rfl⟩ := List.mem_map.mp he
      exact le_start_of_mem_places hp
    show atOnceFrom (⟨offset + gap.length, offset + gap.length + (word key).length, new key⟩
        :: (places word (offset + gap.length + (word key).length)
          (outline pieces)).map (Place.edit new)) offset (gap ++ (word key ++ layout word pieces rest))
      = gap ++ (new key ++ layout new pieces rest)
    rw [atOnceFrom_append, atOnceFrom_edit (hne key) rfl hlater, ih]
    intro e he
    rcases List.mem_cons.mp he with rfl | he
    · exact Nat.le_refl _
    · have hle := hlater e he
      omega

/-- **From the right**, the edits of the words of one key change the spelling of that key. They need
not be made in the text that is laid out: it is enough that a splice at a word of the key does in one
text what it does in the other, as it does in a script and its mask. -/
theorem spliceAll_layout [DecidableEq κ] {word : κ → Text} {key : κ} {new : κ → Text}
    {view : Text → Text}
    (hview : ∀ {t a b : Text}, view t = a ++ word key ++ b →
      view (splice t a.length (a.length + (word key).length) (new key)) = a ++ new key ++ b)
    {t pre : Text} {pieces : List (Text × κ)} {rest : Text}
    (h : view t = pre ++ layout word pieces rest) :
    view (spliceAll (((places word pre.length (outline pieces)).filter
        (fun p => decide (p.key = key))).map (Place.edit new)) t)
      = pre ++ layout (Function.update word key (new key)) pieces rest := by
  induction pieces generalizing pre with
  | nil => exact h
  | cons piece pieces ih =>
    obtain ⟨gap, k⟩ := piece
    have hcut : view t = (pre ++ gap ++ word k) ++ layout word pieces rest := by
      rw [h, layout]
      simp only [List.append_assoc]
    -- the words behind this one are spliced first, which leaves the offsets in front as they are
    have hlater := ih hcut
    have hlen : (pre ++ gap ++ word k).length = pre.length + gap.length + (word k).length := by
      simp only [List.length_append]
    rw [hlen] at hlater
    rw [outline, List.map_cons, places, List.filter_cons]
    by_cases hk : k = key
    · subst hk
      have hspliced := hview hlater
      rw [List.length_append] at hspliced
      rw [if_pos (decide_eq_true rfl), List.map_cons, spliceAll, List.foldr_cons, layout,
        Function.update_self]
      refine Eq.trans hspliced ?_
      simp only [List.append_assoc]
    · rw [if_neg (by simpa using hk), layout, Function.update_of_ne hk]
      refine Eq.trans hlater ?_
      simp only [List.append_assoc]

/-- Grouping by keys that are all different, and cover the list, only changes the order. -/
theorem flatMap_filter_perm [DecidableEq κ] {keys : List κ} (hkeys : keys.Nodup)
    {ps : List (Place κ)} (hcover : ∀ p ∈ ps, p.key ∈ keys) :
    (keys.flatMap fun key => ps.filter (fun p => decide (p.key = key))).Perm ps := by
  induction ps with
  | nil => simp
  | cons p ps ih =>
    have hone : keys.flatMap (fun key => if p.key = key then [p] else []) = [p] := by
      obtain ⟨before, behind, rfl⟩ := List.append_of_mem (hcover p (by simp))
      obtain ⟨-, hbehind, hapart⟩ := List.nodup_append.mp hkeys
      have hnone : ∀ l : List κ, (∀ key ∈ l, p.key ≠ key) →
          l.flatMap (fun key => if p.key = key then [p] else []) = [] := by
        intro l hl
        exact List.flatMap_eq_nil_iff.mpr fun key hkey => if_neg (hl key hkey)
      have hfront := hnone before fun key hkey heq => hapart key hkey p.key (by simp) heq.symm
      have hback := hnone behind fun key hkey heq =>
        (List.nodup_cons.mp hbehind).1 (by rw [heq]; exact hkey)
      rw [List.flatMap_append, List.flatMap_cons, hfront, hback, if_pos rfl]
      rfl
    have hsplit : (keys.flatMap fun key => (p :: ps).filter (fun p => decide (p.key = key)))
        = keys.flatMap fun key => (if p.key = key then [p] else [])
          ++ ps.filter (fun p => decide (p.key = key)) := by
      refine List.flatMap_congr fun key _ => ?_
      by_cases hkey : p.key = key <;> simp [hkey]
    have hothers := ih fun other hother => hcover other (by simp [hother])
    rw [hsplit]
    exact (List.flatMap_append_perm keys _ _).symm.trans ((List.Perm.of_eq hone).append hothers)

end Layout

end ChartLint.Text
