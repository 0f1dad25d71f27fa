import ChartLint.Proofs.Pattern.Seam
import ChartLint.Text.Blank

/-!
# Spelled constructs

Most constructs of a script are spelled in one way up to the blanks between their words: a fixed
text, blanks, a fixed text and so on. `Spells` says this of a text, and `accepts_spelled` of the
patterns. A run of blanks may be stretched and shrunk (`Spells.stretch`, `Spells.shrink`), and where
a construct is cut inside of a run, the rest tells which word comes next (`Spells.nextInk`).
-/

namespace ChartLint

namespace Text

/-- The code points of the blanks. -/
def blankCodes : List Nat :=
  [0x09, 0x0A, 0x0B, 0x0C, 0x0D, 0x1C, 0x1D, 0x1E, 0x1F, 0x20, 0x85, 0xA0, 0x1680, 0x2000, 0x2001,
   0x2002, 0x2003, 0x2004, 0x2005, 0x2006, 0x2007, 0x2008, 0x2009, 0x200A, 0x2028, 0x2029, 0x202F,
   0x205F, 0x3000]

/-- The blanks are finitely many, so that a fact about all of them can be checked one by one. -/
theorem forall_of_isBlank {P : Char → Prop} (h : ∀ n ∈ blankCodes, P (Char.ofNat n)) {c : Char}
    (hc : isBlank c = true) : P c := by
  -- the three runs of blanks as runs, so that membership comes down to bounds
  have hruns : blankCodes = List.range' 0x09 5 ++ List.range' 0x1C 5 ++ [0x85, 0xA0, 0x1680]
      ++ List.range' 0x2000 11 ++ [0x2028, 0x2029, 0x202F, 0x205F, 0x3000] := rfl
  have hmem : c.toNat ∈ blankCodes := by
    simp only [isBlank, Bool.or_eq_true, Bool.and_eq_true, decide_eq_true_eq, beq_iff_eq] at hc
    simp only [hruns, List.mem_append, List.mem_range'_1, List.mem_cons, List.not_mem_nil, or_false]
    omega
  have hP := h c.toNat hmem
  rwa [Char.ofNat_toNat] at hP

theorem isWord_of_isBlank {c : Char} (hc : isBlank c = true) : isWord c = false :=
  forall_of_isBlank (P := fun c => isWord c = false) (by decide +kernel) hc

/-- The first character that is not blank. -/
def firstInk (t : Text) : Option Char :=
  t.find? (fun c => !isBlank c)

theorem firstInk_append_of_isBlank {s : Text} (hs : ∀ c ∈ s, isBlank c = true) (t : Text) :
    firstInk (s ++ t) = firstInk t := by
  have hnone : s.find? (fun c => !isBlank c) = none := by simpa using hs
  rw [firstInk, List.find?_append, hnone, Option.none_or]
  rfl

theorem firstInk_append_of_ink {t : Text} {c : Char} (hc : t.head? = some c)
    (hink : isBlank c = false) (t' : Text) : firstInk (t ++ t') = some c := by
  obtain ⟨tail, rfl⟩ := List.head?_eq_some_iff.mp hc
  simp [firstInk, hink]

end Text

namespace Pattern

open Text

/-- A part of a spelled construct. -/
inductive Part where
  /-- Exactly this text. -/
  | ink (t : Text)
  /-- Blanks, at least one if so needed. -/
  | space (needed : Bool)
deriving DecidableEq

/-- The pattern of a part. -/
def Part.pattern : Part → Pattern
  | .ink t => literal t
  | .space true => gap
  | .space false => blanks

/-- The pattern of a construct, given by its parts. -/
def spelled : List Part → Pattern
  | [] => .empty
  | [part] => part.pattern
  | part :: parts => part.pattern ++ spelled parts

/-- The text spells the construct. -/
def Spells : List Part → Text → Prop
  | [], w => w = []
  | .ink t :: parts, w => ∃ w', w = t ++ w' ∧ Spells parts w'
  | .space needed :: parts, w =>
    ∃ s w', w = s ++ w' ∧ (∀ c ∈ s, isBlank c = true) ∧ (needed = true → s ≠ []) ∧ Spells parts w'

theorem accepts_gap {x : Option Char} {w r : Text} :
    gap.Accepts x w r ↔ (∀ c ∈ w, isBlank c = true) ∧ w ≠ [] := by
  rw [gap, accepts_many1, and_comm]

theorem accepts_part {part : Part} {x : Option Char} {w r : Text} :
    part.pattern.Accepts x w r ↔ Spells [part] w := by
  cases part with
  | ink t => simp [Part.pattern, accepts_literal, Spells]
  | space needed =>
    cases needed with
    | true => simp [Part.pattern, accepts_gap, Spells]
    | false => simp [Part.pattern, blanks, accepts_many, Spells]

theorem spells_cons {part : Part} {parts : List Part} {w : Text} :
    Spells (part :: parts) w ↔ ∃ w₁ w₂, w = w₁ ++ w₂ ∧ Spells [part] w₁ ∧ Spells parts w₂ := by
  cases part with
  | ink t => simp [Spells]
  | space needed =>
    simp only [Spells]
    constructor
    · rintro ⟨s, w', rfl, hs, hne, hw'⟩
      exact ⟨s, w', rfl, ⟨s, [], by simp, hs, hne, rfl⟩, hw'⟩
    · rintro ⟨_, w₂, rfl, ⟨s, _, rfl, hs, hne, rfl⟩, hw₂⟩
      exact ⟨s, w₂, by simp, hs, hne, hw₂⟩

theorem spells_append {front back : List Part} {w : Text} :
    Spells (front ++ back) w ↔ ∃ w₁ w₂, w = w₁ ++ w₂ ∧ Spells front w₁ ∧ Spells back w₂ := by
  induction front generalizing w with
  | nil => simp [Spells]
  | cons part front ih =>
    rw [List.cons_append, spells_cons]
    -- not at the single part, which the rule would cut for ever
    simp only [ih, @spells_cons part front]
    constructor
    · rintro ⟨w₁, _, rfl, h₁, w₂, w₃, rfl, h₂, h₃⟩
      exact ⟨w₁ ++ w₂, w₃, by simp, ⟨w₁, w₂, rfl, h₁, h₂⟩, h₃⟩
    · rintro ⟨_, w₃, rfl, ⟨w₁, w₂, rfl, h₁, h₂⟩, h₃⟩
      exact ⟨w₁, w₂ ++ w₃, by simp, h₁, w₂, w₃, rfl, h₂, h₃⟩

/-- **A spelled pattern** accepts what spells it, whatever stands around. -/
theorem accepts_spelled {parts : List Part} {x : Option Char} {w r : Text} :
    (spelled parts).Accepts x w r ↔ Spells parts w := by
  induction parts generalizing x w with
  | nil => exact Iff.rfl
  | cons part parts ih =>
    cases parts with
    | nil => exact accepts_part
    | cons next parts =>
      rw [spelled, accepts_append, spells_cons]
      · simp only [accepts_part, ih]
      · simp

/-- Sequences may be read with their parts grouped to the right. -/
theorem accepts_append_assoc {p q q' : Pattern} {x : Option Char} {w r : Text} :
    ((p ++ q) ++ q').Accepts x w r ↔ (p ++ (q ++ q')).Accepts x w r := by
  simp only [accepts_append]
  constructor
  · rintro ⟨_, w₃, rfl, ⟨w₁, w₂, rfl, h₁, h₂⟩, h₃⟩
    exact ⟨w₁, w₂ ++ w₃, by simp, by simpa using h₁, w₂, w₃, rfl, h₂, by simpa using h₃⟩
  · rintro ⟨w₁, _, rfl, h₁, w₂, w₃, rfl, h₂, h₃⟩
    exact ⟨w₁ ++ w₂, w₃, by simp, ⟨w₁, w₂, rfl, by simpa using h₁, h₂⟩, by simpa using h₃⟩

/-- A spelled pattern that stands at the edge of a word. -/
theorem accepts_edge_spelled {parts : List Part} {x : Option Char} {w r : Text} :
    (Pattern.edge ++ spelled parts).Accepts x w r ↔
      (x.any isWord != (w ++ r).head?.any isWord) = true ∧ Spells parts w := by
  rw [accepts_append]
  constructor
  · rintro ⟨w₁, w₂, rfl, ⟨rfl, hedge⟩, h⟩
    exact ⟨hedge, accepts_spelled.mp h⟩
  · rintro ⟨hedge, h⟩
    exact ⟨[], w, rfl, ⟨rfl, hedge⟩, accepts_spelled.mpr h⟩

/-! ## Runs of blanks -/

/-- The fixed texts have no blanks, and blanks stand only in front of a fixed text. -/
def isSpaced : List Part → Bool
  | [] => true
  | .ink t :: parts => !t.isEmpty && t.all (fun c => !isBlank c) && isSpaced parts
  | .space _ :: .ink t :: parts => isSpaced (.ink t :: parts)
  | .space _ :: _ => false

/-- The end of a text that ends with a character is empty or ends with it. -/
theorem eq_nil_or_concat_of_append {a s a' : Text} {c : Char} (h : a ++ [c] = s ++ a') :
    a' = [] ∨ ∃ front, a' = front ++ [c] := by
  rcases List.eq_nil_or_concat a' with rfl | ⟨front, d, rfl⟩
  · exact .inl rfl
  · rw [List.concat_eq_append, ← List.append_assoc] at h
    have hd : [c] = [d] := (List.append_inj' h rfl).2
    exact .inr ⟨front, by rw [List.concat_eq_append, hd]⟩

/-- A fixed text in front of a blank lies on one side of it. -/
theorem eq_append_of_ink {t w' a b : Text} {c : Char} (ht : ∀ d ∈ t, isBlank d = false)
    (hc : isBlank c = true) (h : t ++ w' = (a ++ [c]) ++ b) :
    ∃ a', a ++ [c] = t ++ (a' ++ [c]) ∧ w' = (a' ++ [c]) ++ b := by
  rcases List.append_eq_append_iff.mp h with ⟨a', ha', hw'⟩ | ⟨t', ht', -⟩
  · rcases eq_nil_or_concat_of_append ha' with rfl | ⟨front, rfl⟩
    · have hmem : c ∈ t := by
        rw [List.append_nil] at ha'
        rw [← ha']
        simp
      rw [ht c hmem] at hc
      cases hc
    · exact ⟨front, ha', hw'⟩
  · have hmem : c ∈ t := by
      rw [ht']
      simp
    rw [ht c hmem] at hc
    cases hc

theorem isSpaced_tail {part : Part} {parts : List Part} (h : isSpaced (part :: parts) = true) :
    isSpaced parts = true := by
  cases part with
  | ink t =>
    rw [isSpaced, Bool.and_eq_true] at h
    exact h.2
  | space needed =>
    cases parts with
    | nil => rfl
    | cons next parts =>
      cases next with
      | ink t => exact h
      | space => cases h

theorem isBlank_of_mem_ink {t : Text} {parts : List Part} (h : isSpaced (.ink t :: parts) = true) :
    t ≠ [] ∧ ∀ c ∈ t, isBlank c = false := by
  simp only [isSpaced, Bool.and_eq_true, Bool.not_eq_true', List.isEmpty_eq_false_iff,
    List.all_eq_true] at h
  exact h.1

theorem isSpaced_of_append {front back : List Part} (h : isSpaced (front ++ back) = true) :
    isSpaced back = true := by
  induction front with
  | nil => exact h
  | cons part front ih => exact ih (isSpaced_tail h)

/-- What is spelled from a fixed text on starts with that text. -/
theorem Spells.head? {t : Text} {parts : List Part} (hparts : isSpaced (.ink t :: parts) = true)
    {w : Text} (h : Spells (.ink t :: parts) w) : w.head? = t.head? := by
  obtain ⟨w', rfl, -⟩ := h
  obtain ⟨c, t', rfl⟩ := List.exists_cons_of_ne_nil (isBlank_of_mem_ink hparts).1
  rfl

/-- **Where a construct is cut** behind a blank, the cut lies in a run of blanks or at its end: the run
has `s` in front of the cut and `s'` behind it. -/
theorem Spells.exists_cut {parts : List Part} (hparts : isSpaced parts = true) {a b : Text} {c : Char}
    (hc : isBlank c = true) (h : Spells parts ((a ++ [c]) ++ b)) :
    ∃ front needed t back a' s s' b', parts = front ++ .space needed :: .ink t :: back
      ∧ a ++ [c] = a' ++ s ∧ s ≠ [] ∧ b = s' ++ b' ∧ (∀ d ∈ s ++ s', isBlank d = true)
      ∧ Spells front a' ∧ Spells (.ink t :: back) b' := by
  induction parts generalizing a with
  | nil =>
    have hnil : (a ++ [c]) ++ b = [] := h
    simp at hnil
  | cons part parts ih =>
    have htail := isSpaced_tail hparts
    cases part with
    | ink t =>
      obtain ⟨w', hsplit, hw'⟩ := h
      obtain ⟨a', ha', rfl⟩ := eq_append_of_ink (isBlank_of_mem_ink hparts).2 hc hsplit.symm
      obtain ⟨front, needed, t', back, a'', s, s', b', rfl, hcut, hne, rfl, hs, hfront, hback⟩ := ih htail hw'
      exact ⟨.ink t :: front, needed, t', back, t ++ a'', s, s', b', rfl, by rw [ha', hcut, List.append_assoc],
        hne, rfl, hs, ⟨a'', rfl, hfront⟩, hback⟩
    | space needed =>
      obtain ⟨t, back, rfl⟩ : ∃ t back, parts = .ink t :: back := by
        cases parts with
        | nil => cases hparts
        | cons next back =>
          cases next with
          | ink t => exact ⟨t, back, rfl⟩
          | space => cases hparts
      obtain ⟨s, w', hsplit, hs, hne, hw'⟩ := h
      -- the cut lies in this run of blanks, or at its end, or behind it
      rcases List.append_eq_append_iff.mp hsplit with ⟨s', rfl, rfl⟩ | ⟨a', ha', rfl⟩
      · exact ⟨[], needed, t, back, [], a ++ [c], s', w', rfl, rfl, by simp, rfl, hs, rfl, hw'⟩
      · rcases eq_nil_or_concat_of_append ha' with rfl | ⟨a'', rfl⟩
        · rw [List.append_nil] at ha'
          subst ha'
          exact ⟨[], needed, t, back, [], a ++ [c], [], b, rfl, rfl, by simp, rfl, by simpa using hs, rfl, hw'⟩
        · obtain ⟨front, needed', t', back', a', s₁, s', b', hparts', hcut, hne', rfl, hs₁, hfront, hback⟩ :=
            ih htail hw'
          exact ⟨.space needed :: front, needed', t', back', s ++ a', s₁, s', b', by rw [hparts']; rfl,
            by rw [ha', hcut, List.append_assoc], hne', rfl, hs₁, ⟨s, a', rfl, hs, hne, hfront⟩, hback⟩

/-- **A run of blanks may grow** behind one of its blanks. -/
theorem Spells.stretch {parts : List Part} (hparts : isSpaced parts = true) {a b z : Text} {c : Char}
    (hc : isBlank c = true) (hz : ∀ d ∈ z, isBlank d = true) (h : Spells parts ((a ++ [c]) ++ b)) :
    Spells parts ((a ++ [c]) ++ (z ++ b)) := by
  obtain ⟨front, needed, t, back, a', s, s', b', rfl, hcut, hne, rfl, hs, hfront, hback⟩ :=
    h.exists_cut hparts hc
  have hrun : ∀ d ∈ s ++ (z ++ s'), isBlank d = true := by
    intro d hd
    rw [List.mem_append, List.mem_append] at hd
    rcases hd with hd | hd | hd
    · exact hs d (List.mem_append_left _ hd)
    · exact hz d hd
    · exact hs d (List.mem_append_right _ hd)
  rw [hcut, spells_append]
  exact ⟨a', (s ++ (z ++ s')) ++ b', by simp, hfront, s ++ (z ++ s'), b', rfl, hrun,
    fun _ => List.append_ne_nil_of_left_ne_nil hne _, hback⟩

/-- **A run of blanks may shrink** to no less than two of its blanks. -/
theorem Spells.shrink {parts : List Part} (hparts : isSpaced parts = true) {a b z : Text} {c : Char}
    (hc : isBlank c = true) (hz : ∀ d ∈ z, isBlank d = true)
    (h : Spells parts ((a ++ [c]) ++ (z ++ b))) : Spells parts ((a ++ [c]) ++ b) := by
  obtain ⟨front, needed, t, back, a', s, s', b', rfl, hcut, hne, hsplit, hs, hfront, hback⟩ :=
    h.exists_cut hparts hc
  have hink : isSpaced (.ink t :: back) = true := isSpaced_tail (isSpaced_of_append hparts)
  -- the blanks that go lie in the run, since ink stands behind it
  obtain ⟨s'', rfl, rfl⟩ : ∃ s'', s' = z ++ s'' ∧ b = s'' ++ b' := by
    rcases List.append_eq_append_iff.mp hsplit with ⟨s'', hs'', hb⟩ | ⟨z', hz', hb'⟩
    · exact ⟨s'', hs'', hb⟩
    · cases z' with
      | nil => exact ⟨[], by rw [hz', List.append_nil, List.append_nil], hb'.symm⟩
      | cons d z' =>
        have hhead := hback.head? hink
        rw [hb'] at hhead
        have hblank := hz d (by rw [hz']; simp)
        rw [(isBlank_of_mem_ink hink).2 d (List.mem_of_head? hhead.symm)] at hblank
        cases hblank
  have hrun : ∀ d ∈ s ++ s'', isBlank d = true := by
    intro d hd
    refine hs d ?_
    rw [List.mem_append] at hd ⊢
    exact hd.imp_right (List.mem_append_right z)
  rw [hcut, spells_append]
  exact ⟨a', (s ++ s'') ++ b', by simp, hfront, s ++ s'', b', rfl, hrun,
    fun _ => List.append_ne_nil_of_left_ne_nil hne _, hback⟩

/-- The first characters of the fixed texts of a construct. -/
def inkHeads : List Part → List Char
  | [] => []
  | .ink t :: parts => t.head?.toList ++ inkHeads parts
  | .space _ :: parts => inkHeads parts

theorem inkHeads_append (front back : List Part) :
    inkHeads (front ++ back) = inkHeads front ++ inkHeads back := by
  induction front with
  | nil => rfl
  | cons part front ih => cases part <;> simp [inkHeads, ih]

theorem Spells.firstInk {t : Text} {parts : List Part} (hparts : isSpaced (.ink t :: parts) = true)
    {w : Text} (h : Spells (.ink t :: parts) w) (r : Text) :
    ∃ c ∈ inkHeads (.ink t :: parts), Text.firstInk (w ++ r) = some c := by
  obtain ⟨hne, hink⟩ := isBlank_of_mem_ink hparts
  obtain ⟨c, t', rfl⟩ := List.exists_cons_of_ne_nil hne
  obtain ⟨w', rfl, -⟩ := h
  refine ⟨c, by simp [inkHeads], ?_⟩
  rw [List.append_assoc]
  exact firstInk_append_of_ink rfl (hink c (by simp)) _

/-- **Where a construct is cut** behind a blank, the rest goes on, after blanks, with one of its
fixed texts. -/
theorem Spells.nextInk {parts : List Part} (hparts : isSpaced parts = true) {a b : Text} {c : Char}
    (hc : isBlank c = true) (h : Spells parts ((a ++ [c]) ++ b)) (r : Text) :
    ∃ d ∈ inkHeads parts.tail, Text.firstInk (b ++ r) = some d := by
  obtain ⟨front, needed, t, back, a', s, s', b', rfl, -, -, rfl, hs, -, hback⟩ := h.exists_cut hparts hc
  obtain ⟨d, hd, hfirst⟩ := hback.firstInk (isSpaced_tail (isSpaced_of_append hparts)) r
  refine ⟨d, ?_, ?_⟩
  · cases front with
    | nil => exact hd
    | cons part front =>
      rw [List.cons_append, List.tail_cons, inkHeads_append]
      exact List.mem_append_right _ hd
  · rw [List.append_assoc, firstInk_append_of_isBlank (fun e he => hs e (List.mem_append_right _ he))]
    exact hfirst

/-! ## Patterns that are spelled -/

/-- **The pattern accepts spelled constructs**, all spellings alike; `heads` has the first
characters of the fixed texts behind their first part. -/
def Elastic (p : Pattern) (heads : List Char) : Prop :=
  ∀ x w r, p.Accepts x w r → ∃ parts, isSpaced parts = true ∧ (∀ c ∈ inkHeads parts.tail, c ∈ heads)
    ∧ Spells parts w ∧ ∀ w', Spells parts w' → p.Accepts x w' r

theorem elastic_edge_spelled {p : Pattern} {t : Text} {parts : List Part}
    (hp : ∀ x w r, p.Accepts x w r ↔ (Pattern.edge ++ spelled (.ink t :: parts)).Accepts x w r)
    (hparts : isSpaced (.ink t :: parts) = true) : p.Elastic (inkHeads parts) := by
  intro x w r hacc
  obtain ⟨hedge, hspells⟩ := accepts_edge_spelled.mp ((hp x w r).mp hacc)
  refine ⟨.ink t :: parts, hparts, fun c hc => hc, hspells, fun w' hw' => ?_⟩
  refine (hp x w' r).mpr (accepts_edge_spelled.mpr ⟨?_, hw'⟩)
  have hne : ∀ v, Spells (.ink t :: parts) v → (v ++ r).head? = t.head? := by
    intro v hv
    obtain ⟨v', rfl, -⟩ := hv
    obtain ⟨c, t', rfl⟩ := List.exists_cons_of_ne_nil (isBlank_of_mem_ink hparts).1
    rfl
  rw [hne w' hw', ← hne w hspells]
  exact hedge

section Elastic

variable {p : Pattern} {heads : List Char} (helastic : p.Elastic heads) (hp : p.isLocal = true)
  (hstart : ∀ c, isBlank c = true → p.NoStart [c])

theorem sameHead_of_isBlank {z : Text} {d : Char} (hd : isBlank d = true)
    (hz : ∀ c ∈ z, isBlank c = true) (b : Text) : SameHead (d :: b) (z ++ d :: b) := by
  cases z with
  | nil => exact rfl
  | cons c z =>
    change isWord d = isWord c
    rw [isWord_of_isBlank hd, isWord_of_isBlank (hz c (by simp))]

include helastic hp hstart in
/-- **Blanks may be added to a run** without a loss of matches. -/
theorem Occurs.stretch {x : Option Char} {a z b : Text} {c d : Char} (hc : isBlank c = true)
    (hd : isBlank d = true) (hz : ∀ e ∈ z, isBlank e = true)
    (h : p.Occurs x ((a ++ [c]) ++ d :: b)) : p.Occurs x ((a ++ [c]) ++ (z ++ d :: b)) := by
  have hhead := sameHead_of_isBlank hd hz b
  rw [occurs_append] at h
  rcases h with h | h
  · refine (occurs_append _ _ _ _).mpr (.inl ?_)
    obtain ⟨a₁, a₂, hcut, hne, w, r, hsplit, hacc⟩ := h
    refine ⟨a₁, a₂, hcut, hne, ?_⟩
    rcases List.append_eq_append_iff.mp hsplit with ⟨w', rfl, hrest⟩ | ⟨a₃, rfl, rfl⟩
    · obtain ⟨front, rfl⟩ := (eq_nil_or_concat_of_append hcut).resolve_left hne
      cases w' with
      | nil =>
        rw [List.nil_append] at hrest
        rw [List.append_nil, ← hrest] at hacc
        exact ⟨front ++ [c], z ++ d :: b, rfl, accepts_congr_right hp hhead hacc⟩
      | cons e w' =>
        obtain ⟨parts, hparts, -, hspells, hall⟩ := helastic _ _ _ hacc
        refine ⟨(front ++ [c]) ++ (z ++ e :: w'), r, ?_, hall _ (hspells.stretch hparts hc hz)⟩
        rw [hrest]
        simp
    · exact ⟨w, a₃ ++ (z ++ d :: b), by simp, accepts_congr_right hp (hhead.append a₃) hacc⟩
  · have hlater : p.Occurs (some d) b := by
      rw [show d :: b = [d] ++ b from rfl, occurs_append] at h
      exact h.resolve_left (hstart d hd _ _)
    refine (occurs_append _ _ _ _).mpr (.inr ((occurs_append _ _ _ _).mpr (.inr ?_)))
    exact (occurs_append p _ [d] b).mpr (.inr hlater)

include helastic hp hstart in
/-- **Blanks may be taken from a run** without a gain of matches. -/
theorem Occurs.shrink (hend : ∀ c, isBlank c = true → p.mayEnd c = false) {x : Option Char}
    {a z b : Text} {c d : Char} (hc : isBlank c = true) (hd : isBlank d = true)
    (hz : ∀ e ∈ z, isBlank e = true) (h : p.Occurs x ((a ++ [c]) ++ (z ++ d :: b))) :
    p.Occurs x ((a ++ [c]) ++ d :: b) := by
  have hhead := sameHead_of_isBlank hd hz b
  rw [occurs_append] at h
  rcases h with h | h
  · refine (occurs_append _ _ _ _).mpr (.inl ?_)
    obtain ⟨a₁, a₂, hcut, hne, w, r, hsplit, hacc⟩ := h
    refine ⟨a₁, a₂, hcut, hne, ?_⟩
    rcases List.append_eq_append_iff.mp hsplit with ⟨w', rfl, hrest⟩ | ⟨a₃, rfl, rfl⟩
    · obtain ⟨front, rfl⟩ := (eq_nil_or_concat_of_append hcut).resolve_left hne
      -- a match does not end with a blank, so it goes beyond the added blanks or ends before them
      rcases List.append_eq_append_iff.mp hrest with ⟨w'', rfl, hrest'⟩ | ⟨z', hz', rfl⟩
      · obtain ⟨parts, hparts, -, hspells, hall⟩ := helastic _ _ _ hacc
        refine ⟨(front ++ [c]) ++ w'', r, ?_, hall _ (hspells.shrink hparts hc hz)⟩
        rw [hrest']
        simp
      · rcases List.eq_nil_or_concat w' with rfl | ⟨w'', e, rfl⟩
        · rw [List.nil_append] at hz'
          rw [List.append_nil, ← hz'] at hacc
          exact ⟨front ++ [c], d :: b, rfl, accepts_congr_right hp hhead.symm hacc⟩
        · rw [List.concat_eq_append, ← List.append_assoc] at hacc
          have hno := hend e (hz e (by rw [hz']; simp))
          rw [mayEnd_of_accepts hacc] at hno
          cases hno
    · exact ⟨w, a₃ ++ d :: b, by simp, accepts_congr_right hp (SameHead.append a₃ hhead.symm) hacc⟩
  · have hlater : p.Occurs (some d) b := by
      rw [occurs_append] at h
      have h' := h.resolve_left (noStart_of_forall (fun e he => hstart e (hz e he)) _ _)
      rw [show d :: b = [d] ++ b from rfl, occurs_append] at h'
      exact h'.resolve_left (hstart d hd _ _)
    refine (occurs_append _ _ _ _).mpr (.inr ?_)
    exact (occurs_append p _ [d] b).mpr (.inr hlater)

include helastic hp in
/-- **A match across a line start** goes on behind it, after blanks, with one of its heads. -/
theorem Occurs.across (hend : p.mayEnd '\n' = false) {x : Option Char} {a b : Text}
    (ha : EndsLine a) (h : p.Occurs x (a ++ b)) :
    p.Occurs x a ∨ p.Occurs (lastOr x a) b ∨ ∃ c ∈ heads, Text.firstInk b = some c := by
  rw [occurs_append] at h
  rcases h with h | h
  · obtain ⟨a₁, a₂, rfl, hne, w, r, hsplit, hacc⟩ := h
    obtain ⟨front, e, hlast⟩ := (List.eq_nil_or_concat a₂).resolve_left hne
    rw [List.concat_eq_append] at hlast
    have he : e = '\n' := ha e (by rw [hlast]; simp)
    subst he
    have hnoend : ∀ r', ¬ p.Accepts (lastOr x a₁) a₂ r' := by
      intro r' hfull
      rw [hlast] at hfull
      rw [mayEnd_of_accepts hfull] at hend
      cases hend
    rcases List.append_eq_append_iff.mp hsplit with ⟨w', rfl, rfl⟩ | ⟨a₃, rfl, rfl⟩
    · obtain ⟨parts, hparts, hheads, hspells, -⟩ := helastic _ _ _ hacc
      rw [hlast] at hspells
      obtain ⟨c, hc, hfirst⟩ := hspells.nextInk hparts (by decide) r
      exact .inr (.inr ⟨c, hheads c hc, hfirst⟩)
    · cases a₃ with
      | nil =>
        rw [List.append_nil] at hnoend
        exact absurd hacc (hnoend _)
      | cons f a₃ =>
        refine .inl (⟨a₁, w ++ f :: a₃, rfl, w, f :: a₃, rfl, ?_⟩)
        have hhead : SameHead (f :: a₃ ++ b) (f :: a₃) := rfl
        exact accepts_congr_right hp hhead hacc
  · exact .inr (.inl h)

end Elastic

end Pattern

end ChartLint
