import ChartLint.Pattern.Build
import Mathlib.Data.List.Basic

/-!
# What a pattern accepts

`Pattern.ends` lists the ways in which a pattern matches from a place. Here the same is said as a
relation: `p.Accepts x w r` when the pattern covers the text `w` that stands between a character `x`
(if any) and a text `r`. The two agree in both directions (`accepts_of_mem_ends`,
`mem_ends_of_accepts`), so what a search finds is a question about texts and no longer about lists
of cursors (`occursIn_iff`, `find?_spec`, `cuts_findAll`).
-/

namespace ChartLint

namespace Text

/-- A class of characters tells what is in it from what is not. -/
theorem ne_of_class {cls : Char → Bool} {c d : Char} (hc : cls c = true) (hd : cls d = false) :
    c ≠ d := by
  rintro rfl
  rw [hd] at hc
  cases hc

/-- The last character of a text, or the one in front of the text when it is empty. -/
def lastOr : Option Char → Text → Option Char
  | x, [] => x
  | _, c :: t => lastOr (some c) t

@[simp]
theorem lastOr_nil (x : Option Char) : lastOr x [] = x :=
  rfl

@[simp]
theorem lastOr_cons (x : Option Char) (c : Char) (t : Text) :
    lastOr x (c :: t) = lastOr (some c) t :=
  rfl

@[simp]
theorem lastOr_append (x : Option Char) (a b : Text) :
    lastOr x (a ++ b) = lastOr (lastOr x a) b := by
  induction a generalizing x with
  | nil => rfl
  | cons c a ih => exact ih (some c)

theorem lastOr_of_getLast? {t : Text} {c : Char} (h : t.getLast? = some c) (x : Option Char) :
    lastOr x t = some c := by
  obtain ⟨front, rfl⟩ := List.getLast?_eq_some_iff.mp h
  simp

theorem lastOr_none (t : Text) : lastOr none t = t.getLast? := by
  rcases List.eq_nil_or_concat t with rfl | ⟨front, c, rfl⟩
  · rfl
  · simp

end Text

namespace Pattern

open Text

/-! ## The relation -/

/-- Any number of rounds, each of which takes at least one character. -/
inductive Rounds (accepts : Option Char → Text → Text → Prop) : Option Char → Text → Text → Prop where
  | done (x : Option Char) (r : Text) : Rounds accepts x [] r
  | more {x : Option Char} {w₁ w₂ r : Text} (hne : w₁ ≠ []) (first : accepts x w₁ (w₂ ++ r))
      (others : Rounds accepts (lastOr x w₁) w₂ r) : Rounds accepts x (w₁ ++ w₂) r

/-- **`p.Accepts x w r`:** with the character `x` in front and the text `r` behind, the pattern
covers `w`. -/
def Accepts : Pattern → Option Char → Text → Text → Prop
  | .empty, _, w, _ => w = []
  | .one cls, _, w, _ => ∃ c, w = [c] ∧ cls c = true
  | .run _ cls, _, w, _ => ∀ c ∈ w, cls c = true
  | .seq p q, x, w, r =>
    ∃ w₁ w₂, w = w₁ ++ w₂ ∧ p.Accepts x w₁ (w₂ ++ r) ∧ q.Accepts (lastOr x w₁) w₂ r
  | .alt p q, x, w, r => p.Accepts x w r ∨ q.Accepts x w r
  | .star p, x, w, r => Rounds p.Accepts x w r
  | .keep _ p, x, w, r => p.Accepts x w r
  | .edge, x, w, r => w = [] ∧ (x.any isWord != r.head?.any isWord) = true
  | .notAfter cls, x, w, _ => w = [] ∧ x.any cls = false
  | .ahead p, x, w, r => w = [] ∧ ∃ w' r', r = w' ++ r' ∧ p.Accepts x w' r'
  | .textStart, x, w, _ => w = [] ∧ x = none
  | .lineStart, x, w, _ => w = [] ∧ x.all (· == '\n') = true
  | .textEnd, _, w, r => w = [] ∧ (r = [] ∨ r = ['\n'])

/-- A class covers one character. -/
theorem accepts_one {cls : Char → Bool} {x : Option Char} {w r : Text} :
    (Pattern.one cls).Accepts x w r ↔ ∃ c, w = [c] ∧ cls c = true :=
  Iff.rfl

/-- Nesting a sequence to the right keeps what it accepts. -/
theorem accepts_append {p q : Pattern} {x : Option Char} {w r : Text} :
    (p ++ q).Accepts x w r ↔
      ∃ w₁ w₂, w = w₁ ++ w₂ ∧ p.Accepts x w₁ (w₂ ++ r) ∧ q.Accepts (lastOr x w₁) w₂ r := by
  change (p.followedBy q).Accepts x w r ↔ _
  induction p generalizing x w with
  | seq a b _ ihb =>
    simp only [followedBy, Accepts, ihb]
    constructor
    · rintro ⟨w₁, _, rfl, ha, w₂, w₃, rfl, hb, hq⟩
      refine ⟨w₁ ++ w₂, w₃, by simp, ⟨w₁, w₂, rfl, by simpa using ha, hb⟩, by simpa using hq⟩
    · rintro ⟨_, w₃, rfl, ⟨w₁, w₂, rfl, ha, hb⟩, hq⟩
      refine ⟨w₁, w₂ ++ w₃, by simp, by simpa using ha, w₂, w₃, rfl, hb, by simpa using hq⟩
  | _ => exact Iff.rfl

/-- A literal covers itself. -/
theorem accepts_literal {t : Text} {x : Option Char} {w r : Text} :
    (literal t).Accepts x w r ↔ w = t := by
  induction t generalizing x w with
  | nil => exact Iff.rfl
  | cons c t ih =>
    cases t with
    | nil => simp [literal, Accepts]
    | cons d t =>
      simp only [literal, Accepts] at ih ⊢
      simp only [ih]
      constructor
      · rintro ⟨w₁, w₂, rfl, ⟨a, rfl, ha⟩, rfl⟩
        rw [beq_iff_eq] at ha
        rw [ha]
        rfl
      · rintro rfl
        exact ⟨[c], d :: t, rfl, ⟨c, rfl, by simp⟩, rfl⟩

theorem accepts_text {s : String} {x : Option Char} {w r : Text} :
    (text s).Accepts x w r ↔ w = s.toList :=
  accepts_literal

/-- A run covers any number of characters of its class. -/
theorem accepts_many {cls : Char → Bool} {x : Option Char} {w r : Text} :
    (many cls).Accepts x w r ↔ ∀ c ∈ w, cls c = true :=
  Iff.rfl

theorem accepts_many1 {cls : Char → Bool} {x : Option Char} {w r : Text} :
    (many1 cls).Accepts x w r ↔ w ≠ [] ∧ ∀ c ∈ w, cls c = true := by
  rw [many1, accepts_append]
  constructor
  · rintro ⟨w₁, w₂, rfl, ⟨c, rfl, hc⟩, hmany⟩
    refine ⟨by simp, ?_⟩
    simpa using ⟨hc, hmany⟩
  · rintro ⟨hne, hall⟩
    obtain ⟨c, w', rfl⟩ := List.exists_cons_of_ne_nil hne
    exact ⟨[c], w', rfl, ⟨c, rfl, hall c (by simp)⟩, fun d hd => hall d (by simp [hd])⟩

/-- A choice covers what one of its patterns covers. -/
theorem accepts_anyOf {ps : List Pattern} (hne : ps ≠ []) {x : Option Char} {w r : Text} :
    (anyOf ps).Accepts x w r ↔ ∃ p ∈ ps, p.Accepts x w r := by
  induction ps with
  | nil => exact absurd rfl hne
  | cons p ps ih =>
    cases ps with
    | nil => simp [anyOf]
    | cons q qs =>
      simp only [anyOf, Accepts] at ih ⊢
      rw [ih (by simp)]
      simp

/-! ## The ways of a pattern are what it accepts -/

/-- The places that a run reaches are those with only characters of its class on the way. -/
theorem mem_reach {cls : Char → Bool} {pos : Nat} {x : Option Char} {t : Text} {c : Cursor} :
    c ∈ Cursor.reach cls pos x t ↔ ∃ w r, t = w ++ r ∧ (∀ a ∈ w, cls a = true)
      ∧ c = ⟨pos + w.length, lastOr x w, r⟩ := by
  induction t generalizing pos x with
  | nil =>
    rw [Cursor.reach, List.mem_singleton]
    constructor
    · rintro rfl
      exact ⟨[], [], rfl, by simp, rfl⟩
    · rintro ⟨w, r, hsplit, -, rfl⟩
      obtain ⟨rfl, rfl⟩ := List.append_eq_nil_iff.mp hsplit.symm
      rfl
  | cons a t ih =>
    rw [Cursor.reach, List.mem_cons]
    constructor
    · rintro (rfl | hmem)
      · exact ⟨[], a :: t, rfl, by simp, rfl⟩
      · split at hmem
        · next hcls =>
          obtain ⟨w, r, rfl, hall, rfl⟩ := ih.mp hmem
          refine ⟨a :: w, r, rfl, by simpa using ⟨hcls, hall⟩, ?_⟩
          simp only [List.length_cons, lastOr_cons, Cursor.mk.injEq, and_true]
          omega
        · cases hmem
    · rintro ⟨w, r, hsplit, hall, rfl⟩
      cases w with
      | nil =>
        rw [List.nil_append] at hsplit
        exact .inl (by simp [hsplit])
      | cons b w =>
        rw [List.cons_append, List.cons.injEq] at hsplit
        obtain ⟨rfl, rfl⟩ := hsplit
        rw [if_pos (hall a (by simp))]
        refine .inr (ih.mpr ⟨w, r, rfl, fun c hc => hall c (by simp [hc]), ?_⟩)
        simp only [List.length_cons, lastOr_cons, Cursor.mk.injEq, and_true]
        omega

/-- An ending at a place is on the way of a relation: the text in between is accepted. -/
def Leads (accepts : Option Char → Text → Text → Prop) (c : Cursor) (e : Ending) : Prop :=
  ∃ w r, c.rest = w ++ r ∧ accepts c.before w r ∧ e.here = ⟨c.pos + w.length, lastOr c.before w, r⟩

theorem leads_plain {accepts : Option Char → Text → Text → Prop} {c : Cursor}
    (h : accepts c.before [] c.rest) : Leads accepts c (.plain c) :=
  ⟨[], c.rest, rfl, h, rfl⟩

/-- A way that leads somewhere leads there under a weaker reading of what it covers. -/
theorem Leads.mono {P Q : Option Char → Text → Text → Prop} {c : Cursor} {e : Ending}
    (h : Leads P c e) (himp : ∀ {x w r}, P x w r → Q x w r) : Leads Q c e := by
  obtain ⟨w, r, hsplit, hacc, hhere⟩ := h
  exact ⟨w, r, hsplit, himp hacc, hhere⟩

/-- Two ways, the second one from where the first one ends. -/
theorem Leads.andThen {P Q : Option Char → Text → Text → Prop} {c : Cursor} {e₁ e₂ : Ending}
    (h₁ : Leads P c e₁) (h₂ : Leads Q e₁.here e₂) :
    Leads (fun x w r => ∃ w₁ w₂, w = w₁ ++ w₂ ∧ P x w₁ (w₂ ++ r) ∧ Q (lastOr x w₁) w₂ r) c
      (e₁.andThen e₂) := by
  obtain ⟨w₁, r₁, hsplit₁, hacc₁, hhere₁⟩ := h₁
  obtain ⟨w₂, r₂, hsplit₂, hacc₂, hhere₂⟩ := h₂
  rw [hhere₁] at hsplit₂ hacc₂ hhere₂
  obtain rfl : r₁ = w₂ ++ r₂ := hsplit₂
  refine ⟨w₁ ++ w₂, r₂, by rw [hsplit₁, List.append_assoc], ⟨w₁, w₂, rfl, hacc₁, hacc₂⟩, ?_⟩
  rw [Ending.here_andThen, hhere₂]
  simp [Nat.add_assoc]

/-- Rounds of steps that lead somewhere are rounds of what the steps cover. -/
theorem leads_repeated {accepts : Option Char → Text → Text → Prop} {step : Cursor → List Ending}
    (hstep : ∀ c e, e ∈ step c → Leads accepts c e) {bound : Nat} {c : Cursor} {e : Ending}
    (he : e ∈ repeated step bound c) : Leads (Rounds accepts) c e := by
  induction bound generalizing c e with
  | zero =>
    rw [repeated, List.mem_singleton] at he
    subst he
    exact leads_plain (.done _ _)
  | succ bound ih =>
    simp only [repeated, List.mem_append, List.mem_flatMap, List.mem_filter, List.mem_map,
      List.mem_singleton] at he
    rcases he with ⟨e₁, ⟨hmem, hmoved⟩, e₂, hrest, rfl⟩ | rfl
    · -- a round that moves on has taken a character
      have hround : Leads (fun x w r => w ≠ [] ∧ accepts x w r) c e₁ := by
        obtain ⟨w, r, hsplit, hacc, hhere⟩ := hstep c e₁ hmem
        refine ⟨w, r, hsplit, ⟨?_, hacc⟩, hhere⟩
        rintro rfl
        simp [hhere] at hmoved
      refine (hround.andThen (ih hrest)).mono ?_
      rintro x w r ⟨w₁, w₂, rfl, ⟨hne, hacc⟩, hothers⟩
      exact .more hne hacc hothers
    · exact leads_plain (.done _ _)

/-- The ways of a sequence: a way of the first part and one of the second from where that ends. -/
theorem mem_ends_seq {p q : Pattern} {c : Cursor} {e : Ending} :
    e ∈ (Pattern.seq p q).ends c ↔ ∃ e₁ ∈ p.ends c, ∃ e₂ ∈ q.ends e₁.here, e₁.andThen e₂ = e := by
  simp only [ends, List.mem_flatMap, List.mem_map]

/-- The ways of a kept pattern are its ways, each with one entry more. -/
theorem mem_ends_keep {p : Pattern} {slot : Slot} {c : Cursor} {e : Ending} :
    e ∈ (Pattern.keep slot p).ends c
      ↔ ∃ e' ∈ p.ends c, ⟨e'.here, (slot, ⟨c.pos, e'.here.pos⟩) :: e'.kept⟩ = e := by
  simp only [ends, List.mem_map]

/-- **Every way of a pattern is accepted.** -/
theorem accepts_of_mem_ends {p : Pattern} {c : Cursor} {e : Ending} (he : e ∈ p.ends c) :
    Leads p.Accepts c e := by
  induction p generalizing c e with
  | empty =>
    rw [ends, List.mem_singleton] at he
    subst he
    exact leads_plain rfl
  | one cls =>
    obtain ⟨pos, x, t⟩ := c
    cases t with
    | nil => cases he
    | cons a t =>
      simp only [ends] at he
      split at he
      · next hcls =>
        rw [List.mem_singleton] at he
        subst he
        exact ⟨[a], t, rfl, ⟨a, rfl, hcls⟩, rfl⟩
      · cases he
  | run greed cls =>
    have hmem : ∃ c' ∈ Cursor.reach cls c.pos c.before c.rest, Ending.plain c' = e := by
      cases greed <;> simpa [ends] using he
    obtain ⟨c', hc', rfl⟩ := hmem
    obtain ⟨w, r, hsplit, hall, rfl⟩ := mem_reach.mp hc'
    exact ⟨w, r, hsplit, hall, rfl⟩
  | seq p q ihp ihq =>
    obtain ⟨e₁, h₁, e₂, h₂, rfl⟩ := mem_ends_seq.mp he
    exact (ihp h₁).andThen (ihq h₂)
  | alt p q ihp ihq =>
    rw [ends, List.mem_append] at he
    rcases he with h | h
    · exact (ihp h).mono .inl
    · exact (ihq h).mono .inr
  | star p ih => exact leads_repeated (fun c e => ih) he
  | keep slot p ih =>
    obtain ⟨e', h', rfl⟩ := mem_ends_keep.mp he
    obtain ⟨w, r, hsplit, hacc, hhere⟩ := ih h'
    exact ⟨w, r, hsplit, hacc, hhere⟩
  | ahead p ih =>
    simp only [ends] at he
    split at he
    · cases he
    · next hsome =>
      rw [List.mem_singleton] at he
      subst he
      -- a lookahead asks only whether there is a way, and goes none
      obtain ⟨e', h'⟩ := List.exists_mem_of_ne_nil _ (by simpa using hsome : p.ends c ≠ [])
      obtain ⟨w, r, hsplit, hacc, -⟩ := ih h'
      exact leads_plain ⟨rfl, w, r, hsplit, hacc⟩
  | edge | notAfter | textStart | lineStart | textEnd =>
    simp only [ends] at he
    split at he
    all_goals
      first
        | cases he; done
        | next hcond =>
          rw [List.mem_singleton] at he
          subst he
          exact leads_plain (by simp_all [Accepts, Cursor.isAfter, Cursor.isBefore])

/-- An ending at the end of `w`, from a place in front of `w` and `r`. -/
def Ended (es : List Ending) (pos : Nat) (x : Option Char) (w r : Text) : Prop :=
  ∃ e ∈ es, e.here = ⟨pos + w.length, lastOr x w, r⟩

/-- Two ways, the second one from where the first one ends. -/
theorem Ended.andThen {es : List Ending} {next : Cursor → List Ending} {pos : Nat} {x : Option Char}
    {w₁ w₂ r : Text} (h₁ : Ended es pos x w₁ (w₂ ++ r))
    (h₂ : Ended (next ⟨pos + w₁.length, lastOr x w₁, w₂ ++ r⟩) (pos + w₁.length) (lastOr x w₁) w₂ r) :
    Ended (es.flatMap fun e => (next e.here).map e.andThen) pos x (w₁ ++ w₂) r := by
  obtain ⟨e₁, hmem₁, hhere₁⟩ := h₁
  obtain ⟨e₂, hmem₂, hhere₂⟩ := h₂
  rw [← hhere₁] at hmem₂
  refine ⟨e₁.andThen e₂, List.mem_flatMap.mpr ⟨e₁, hmem₁, List.mem_map_of_mem hmem₂⟩, ?_⟩
  rw [Ending.here_andThen, hhere₂]
  simp [Nat.add_assoc]

theorem Ended.append_left {es es' : List Ending} {pos : Nat} {x : Option Char} {w r : Text}
    (h : Ended es pos x w r) : Ended (es ++ es') pos x w r := by
  obtain ⟨e, hmem, hhere⟩ := h
  exact ⟨e, List.mem_append_left _ hmem, hhere⟩

/-- Every number of rounds is found, if the bound on rounds is not below the length. -/
theorem ended_repeated {accepts : Option Char → Text → Text → Prop} {step : Cursor → List Ending}
    (hstep : ∀ pos x w r, accepts x w r → Ended (step ⟨pos, x, w ++ r⟩) pos x w r)
    {x : Option Char} {w r : Text} (h : Rounds accepts x w r) {bound : Nat}
    (hbound : w.length ≤ bound) (pos : Nat) :
    Ended (repeated step bound ⟨pos, x, w ++ r⟩) pos x w r := by
  induction h generalizing bound pos with
  | done x r =>
    refine ⟨.plain ⟨pos, x, r⟩, ?_, rfl⟩
    cases bound <;> simp [repeated]
  | @more x w₁ w₂ r hne first others ih =>
    have hpos : 0 < w₁.length := List.length_pos_iff.mpr hne
    rw [List.length_append] at hbound
    cases bound with
    | zero => omega
    | succ bound =>
      have hround : Ended ((step ⟨pos, x, w₁ ++ (w₂ ++ r)⟩).filter (fun e => pos < e.here.pos))
          pos x w₁ (w₂ ++ r) := by
        obtain ⟨e, hmem, hhere⟩ := hstep pos x w₁ (w₂ ++ r) first
        refine ⟨e, List.mem_filter.mpr ⟨hmem, ?_⟩, hhere⟩
        rw [hhere, decide_eq_true_eq]
        exact Nat.lt_add_of_pos_right hpos
      rw [repeated, List.append_assoc]
      exact (hround.andThen (ih (by omega) (pos + w₁.length))).append_left

/-- **Everything that a pattern accepts is one of its ways.** -/
theorem mem_ends_of_accepts {p : Pattern} {x : Option Char} {w r : Text} (h : p.Accepts x w r)
    (pos : Nat) : Ended (p.ends ⟨pos, x, w ++ r⟩) pos x w r := by
  induction p generalizing x w r pos with
  | empty =>
    cases (h : w = [])
    exact ⟨_, List.mem_singleton.mpr rfl, rfl⟩
  | one cls =>
    obtain ⟨c, rfl, hcls⟩ := h
    refine ⟨.plain ⟨pos + 1, some c, r⟩, ?_, rfl⟩
    simp [ends, hcls]
  | run greed cls =>
    have hmem : (⟨pos + w.length, lastOr x w, r⟩ : Cursor) ∈ Cursor.reach cls pos x (w ++ r) :=
      mem_reach.mpr ⟨w, r, rfl, h, rfl⟩
    refine ⟨.plain _, ?_, rfl⟩
    cases greed <;> simpa [ends, Ending.plain] using hmem
  | seq p q ihp ihq =>
    obtain ⟨w₁, w₂, rfl, h₁, h₂⟩ := h
    rw [ends, List.append_assoc]
    exact (ihp h₁ pos).andThen (ihq h₂ (pos + w₁.length))
  | alt p q ihp ihq =>
    rcases h with h | h
    · exact (ihp h pos).append_left
    · obtain ⟨e, hmem, hhere⟩ := ihq h pos
      exact ⟨e, by simp [ends, hmem], hhere⟩
  | star p ih =>
    refine ended_repeated (fun pos x w r hacc => ih hacc pos) h ?_ pos
    simp
  | keep slot p ih =>
    obtain ⟨e, hmem, hhere⟩ := ih h pos
    exact ⟨_, List.mem_map.mpr ⟨e, hmem, rfl⟩, hhere⟩
  | ahead p ih =>
    obtain ⟨rfl, w', r', rfl, hacc⟩ := h
    obtain ⟨e, hmem, -⟩ := ih hacc pos
    have hne : p.ends ⟨pos, x, w' ++ r'⟩ ≠ [] := List.ne_nil_of_mem hmem
    refine ⟨.plain ⟨pos, x, w' ++ r'⟩, ?_, rfl⟩
    simp [ends, hne]
  | edge | notAfter | textStart | lineStart | textEnd =>
    obtain ⟨rfl, hcond⟩ := h
    refine ⟨.plain ⟨pos, x, r⟩, ?_, rfl⟩
    simp_all [ends, Cursor.isAfter, Cursor.isBefore]

/-! ## Where a match starts -/

/-- A match starts in front of the text. -/
def StartsAt (p : Pattern) (x : Option Char) (t : Text) : Prop :=
  ∃ w r, t = w ++ r ∧ p.Accepts x w r

/-- A match starts at a character of `a`, where `b` follows `a`. -/
def Begins (p : Pattern) (x : Option Char) (a b : Text) : Prop :=
  ∃ a₁ a₂, a = a₁ ++ a₂ ∧ a₂ ≠ [] ∧ p.StartsAt (lastOr x a₁) (a₂ ++ b)

/-- A match starts somewhere in the text. -/
def Occurs (p : Pattern) (x : Option Char) (t : Text) : Prop :=
  ∃ a b, t = a ++ b ∧ p.StartsAt (lastOr x a) b

@[simp]
theorem not_begins_nil (p : Pattern) (x : Option Char) (b : Text) : ¬ p.Begins x [] b := by
  rintro ⟨a₁, a₂, hsplit, hne, -⟩
  exact hne (List.append_eq_nil_iff.mp hsplit.symm).2

/-- A beginning in a text is at its first character or in the rest. -/
theorem begins_cons (p : Pattern) (x : Option Char) (c : Char) (a b : Text) :
    p.Begins x (c :: a) b ↔ p.StartsAt x (c :: (a ++ b)) ∨ p.Begins (some c) a b := by
  constructor
  · rintro ⟨a₁, a₂, hsplit, hne, h⟩
    cases a₁ with
    | nil =>
      rw [List.nil_append] at hsplit
      subst hsplit
      exact .inl h
    | cons d a₁ =>
      rw [List.cons_append, List.cons.injEq] at hsplit
      obtain ⟨rfl, rfl⟩ := hsplit
      exact .inr ⟨a₁, a₂, rfl, hne, h⟩
  · rintro (h | ⟨a₁, a₂, rfl, hne, h⟩)
    · exact ⟨[], c :: a, rfl, by simp, h⟩
    · exact ⟨c :: a₁, a₂, rfl, hne, h⟩

theorem occurs_nil (p : Pattern) (x : Option Char) : p.Occurs x [] ↔ p.StartsAt x [] := by
  constructor
  · rintro ⟨a, b, hsplit, h⟩
    obtain ⟨rfl, rfl⟩ := List.append_eq_nil_iff.mp hsplit.symm
    exact h
  · intro h
    exact ⟨[], [], rfl, h⟩

/-- So is an occurrence. -/
theorem occurs_cons (p : Pattern) (x : Option Char) (c : Char) (t : Text) :
    p.Occurs x (c :: t) ↔ p.StartsAt x (c :: t) ∨ p.Occurs (some c) t := by
  constructor
  · rintro ⟨a, b, hsplit, h⟩
    cases a with
    | nil =>
      rw [List.nil_append] at hsplit
      subst hsplit
      exact .inl h
    | cons d a =>
      rw [List.cons_append, List.cons.injEq] at hsplit
      obtain ⟨rfl, rfl⟩ := hsplit
      exact .inr ⟨a, b, rfl, h⟩
  · rintro (h | ⟨a, b, rfl, h⟩)
    · exact ⟨[], c :: t, rfl, h⟩
    · exact ⟨c :: a, b, rfl, h⟩

/-- Beginnings in two pieces: those in the one, with the other behind it, and those in the other. -/
theorem begins_append (p : Pattern) (x : Option Char) (a a' b : Text) :
    p.Begins x (a ++ a') b ↔ p.Begins x a (a' ++ b) ∨ p.Begins (lastOr x a) a' b := by
  induction a generalizing x with
  | nil => simp
  | cons c a ih => simp [begins_cons, ih, or_assoc]

theorem Begins.append_right {p : Pattern} {x : Option Char} {a a' b : Text}
    (h : p.Begins x a (a' ++ b)) : p.Begins x (a ++ a') b :=
  (begins_append p x a a' b).mpr (.inl h)

/-- **Occurrences at a cut:** one begins in front of the cut, or occurs behind it. -/
theorem occurs_append (p : Pattern) (x : Option Char) (a b : Text) :
    p.Occurs x (a ++ b) ↔ p.Begins x a b ∨ p.Occurs (lastOr x a) b := by
  induction a generalizing x with
  | nil => simp
  | cons c a ih => simp [begins_cons, occurs_cons, ih, or_assoc]

/-- Of the places at which a match starts there is a first one. -/
theorem Occurs.first {p : Pattern} {x : Option Char} {t : Text} (h : p.Occurs x t) :
    ∃ g t', t = g ++ t' ∧ ¬ p.Begins x g t' ∧ p.StartsAt (lastOr x g) t' := by
  induction t generalizing x with
  | nil => exact ⟨[], [], rfl, by simp, (occurs_nil p x).mp h⟩
  | cons c t ih =>
    by_cases hstart : p.StartsAt x (c :: t)
    · exact ⟨[], c :: t, rfl, by simp, hstart⟩
    · obtain ⟨g, t', rfl, hfirst, hlater⟩ := ih (((occurs_cons p x c t).mp h).resolve_left hstart)
      exact ⟨c :: g, t', rfl, by rw [begins_cons]; exact not_or.mpr ⟨hstart, hfirst⟩, hlater⟩

theorem begins_congr {p q : Pattern} (h : ∀ x t, p.StartsAt x t ↔ q.StartsAt x t)
    {x : Option Char} {a b : Text} : p.Begins x a b ↔ q.Begins x a b := by
  simp only [Begins, h]

theorem occurs_congr {p q : Pattern} (h : ∀ x t, p.StartsAt x t ↔ q.StartsAt x t)
    {x : Option Char} {t : Text} : p.Occurs x t ↔ q.Occurs x t := by
  simp only [Occurs, h]

/-- Looking ahead for a pattern starts where covering it does. -/
theorem startsAt_append_ahead {p q : Pattern} (x : Option Char) (t : Text) :
    (p ++ .ahead q).StartsAt x t ↔ (p ++ q).StartsAt x t := by
  simp only [StartsAt, accepts_append]
  constructor
  · rintro ⟨_, r, rfl, w₁, _, rfl, h₁, rfl, w₂, r', rfl, h₂⟩
    exact ⟨w₁ ++ w₂, r', by simp, w₁, w₂, rfl, by simpa using h₁, h₂⟩
  · rintro ⟨_, r, rfl, w₁, w₂, rfl, h₁, h₂⟩
    exact ⟨w₁, w₂ ++ r, by simp, w₁, [], by simp, by simpa using h₁, rfl, w₂, r, rfl, h₂⟩

/-! ## Searches -/

theorem ofOffset_append (g x : Text) : Cursor.ofOffset (g ++ x) g.length = ⟨g.length, g.getLast?, x⟩ := by
  unfold Cursor.ofOffset
  rw [List.drop_left]
  congr 1
  rcases List.eq_nil_or_concat g with rfl | ⟨front, c, rfl⟩
  · rfl
  · simp

/-- The preferred match at a place covers an accepted text. -/
theorem accepts_of_matchAt? {p : Pattern} {pos : Nat} {x : Option Char} {t : Text} {m : Match}
    (h : p.matchAt? ⟨pos, x, t⟩ = some m) :
    ∃ w r, t = w ++ r ∧ p.Accepts x w r ∧ m.start = pos ∧ m.stop = pos + w.length := by
  rw [matchAt?, Option.map_eq_some_iff] at h
  obtain ⟨e, he, rfl⟩ := h
  obtain ⟨w, r, hsplit, hacc, hhere⟩ := accepts_of_mem_ends (List.mem_of_head? he)
  exact ⟨w, r, hsplit, hacc, rfl, by rw [hhere]⟩

/-- A search finds a match at a place exactly if the pattern starts there. -/
theorem isSome_matchAt? {p : Pattern} {pos : Nat} {x : Option Char} {t : Text} :
    (p.matchAt? ⟨pos, x, t⟩).isSome = true ↔ p.StartsAt x t := by
  constructor
  · intro h
    obtain ⟨m, hm⟩ := Option.isSome_iff_exists.mp h
    obtain ⟨w, r, hsplit, hacc, -⟩ := accepts_of_matchAt? hm
    exact ⟨w, r, hsplit, hacc⟩
  · rintro ⟨w, r, rfl, hacc⟩
    obtain ⟨e, he, -⟩ := mem_ends_of_accepts hacc pos
    cases hends : p.ends ⟨pos, x, w ++ r⟩ with
    | nil =>
      rw [hends] at he
      cases he
    | cons first others => simp [matchAt?, hends]

theorem matchAt?_eq_none {p : Pattern} {pos : Nat} {x : Option Char} {t : Text} :
    p.matchAt? ⟨pos, x, t⟩ = none ↔ ¬ p.StartsAt x t := by
  rw [← Option.not_isSome_iff_eq_none, isSome_matchAt?]

/-- A search finds a match when one starts in the text. -/
theorem isSome_findFrom? {p : Pattern} {pos : Nat} {x : Option Char} {t : Text} :
    (p.findFrom? pos x t).isSome = true ↔ p.Occurs x t := by
  induction t generalizing pos x with
  | nil => exact isSome_matchAt?.trans (occurs_nil p x).symm
  | cons c t ih =>
    rw [findFrom?, occurs_cons]
    split
    · next m hm =>
      have hstart : p.StartsAt x (c :: t) := isSome_matchAt?.mp (by rw [hm]; rfl)
      simp [hstart]
    · next hnone => simp [ih, matchAt?_eq_none.mp hnone]

/-- **A pattern occurs in a text** when a match starts in it. -/
theorem occursIn_iff {p : Pattern} {t : Text} : p.occursIn t = true ↔ p.Occurs none t :=
  isSome_findFrom?

/-- **The first match:** no match starts in front of it. -/
theorem findFrom?_eq_some {p : Pattern} {pos : Nat} {x : Option Char} {t : Text} {m : Match} :
    p.findFrom? pos x t = some m ↔ ∃ g t', t = g ++ t' ∧ ¬ p.Begins x g t'
      ∧ p.matchAt? ⟨pos + g.length, lastOr x g, t'⟩ = some m := by
  induction t generalizing pos x with
  | nil =>
    rw [findFrom?]
    constructor
    · intro h
      exact ⟨[], [], rfl, by simp, h⟩
    · rintro ⟨g, t', hsplit, -, h⟩
      obtain ⟨rfl, rfl⟩ := List.append_eq_nil_iff.mp hsplit.symm
      exact h
  | cons c t ih =>
    rw [findFrom?]
    constructor
    · intro h
      split at h
      · next m' hm => exact ⟨[], c :: t, rfl, by simp, by rw [← h]; exact hm⟩
      · next hnone =>
        obtain ⟨g, t', rfl, hno, hm⟩ := ih.mp h
        refine ⟨c :: g, t', rfl, ?_, ?_⟩
        · rw [begins_cons]
          exact not_or.mpr ⟨matchAt?_eq_none.mp hnone, hno⟩
        · rw [← hm]
          simp [Nat.add_assoc, Nat.add_comm 1]
    · rintro ⟨g, t', hsplit, hno, hm⟩
      cases g with
      | nil =>
        rw [List.nil_append] at hsplit
        subst hsplit
        rw [List.length_nil, Nat.add_zero, lastOr_nil] at hm
        rw [hm]
      | cons d g =>
        rw [List.cons_append, List.cons.injEq] at hsplit
        obtain ⟨rfl, rfl⟩ := hsplit
        rw [begins_cons, not_or] at hno
        rw [matchAt?_eq_none.mpr hno.1]
        refine ih.mpr ⟨g, t', rfl, hno.2, ?_⟩
        rw [← hm]
        simp [Nat.add_assoc, Nat.add_comm 1]

/-! ## All matches -/

/-- A pattern that does not accept the empty text. -/
def Consumes (p : Pattern) : Prop :=
  ∀ x r, ¬ p.Accepts x [] r

/-- **The matches cut the text:** between two of them, in front of the first and behind the last no
match starts. -/
inductive Cuts (p : Pattern) : Option Char → Nat → Text → List Match → Prop where
  | done {x : Option Char} {pos : Nat} {t : Text} (none : ¬ p.Occurs x t) : Cuts p x pos t []
  | next {x : Option Char} {pos : Nat} {g w r : Text} {m : Match} {ms : List Match}
      (before : ¬ p.Begins x g (w ++ r)) (covers : p.Accepts (lastOr x g) w r)
      (chosen : p.matchAt? ⟨pos + g.length, lastOr x g, w ++ r⟩ = some m)
      (stop : m.stop = pos + g.length + w.length)
      (others : Cuts p (lastOr (lastOr x g) w) (pos + g.length + w.length) r ms) :
      Cuts p x pos (g ++ (w ++ r)) (m :: ms)

/-- A character that no match starts at goes to the gap in front of the next match. -/
theorem Cuts.cons {p : Pattern} {x : Option Char} {pos : Nat} {c : Char} {t : Text}
    {ms : List Match} (hno : ¬ p.StartsAt x (c :: t)) (h : Cuts p (some c) (pos + 1) t ms) :
    Cuts p x pos (c :: t) ms := by
  cases h with
  | done none => exact .done (by rw [occurs_cons]; exact not_or.mpr ⟨hno, none⟩)
  | @next _ _ g w r m ms before covers chosen stop others =>
    have hpos : pos + (c :: g).length = pos + 1 + g.length := by
      rw [List.length_cons]
      omega
    refine Cuts.next (g := c :: g) ?_ covers ?_ ?_ ?_
    · rw [begins_cons]
      exact not_or.mpr ⟨hno, before⟩
    · rw [hpos]
      exact chosen
    · rw [hpos]
      exact stop
    · rw [hpos]
      exact others

/-- Without an occurrence there is nothing to cut out. -/
theorem Cuts.eq_nil {p : Pattern} {x : Option Char} {pos : Nat} {t : Text} {ms : List Match}
    (h : Cuts p x pos t ms) (hno : ¬ p.Occurs x t) : ms = [] := by
  cases h with
  | done => rfl
  | @next _ _ g w r m ms before covers chosen stop others =>
    exact absurd ⟨g, w ++ r, rfl, w, r, rfl, covers⟩ hno

/-- A search passes what its last match still covers. -/
theorem findAllFrom_skip (p : Pattern) (resume : Nat) (x : Option Char) (w r : Text) :
    ∀ pos, pos + w.length = resume → p.findAllFrom resume pos x (w ++ r)
      = p.findAllFrom resume resume (lastOr x w) r := by
  induction w generalizing x with
  | nil =>
    rintro pos rfl
    rfl
  | cons c w ih =>
    intro pos hpos
    rw [List.length_cons] at hpos
    rw [List.cons_append, findAllFrom, if_pos (by omega), ih (some c) (pos + 1) (by omega)]
    rfl

/-- **A search cuts out its matches**, from the left and without overlap. -/
theorem cuts_findAllFrom {p : Pattern} (hp : p.Consumes) {resume pos : Nat} {x : Option Char}
    {t : Text} (hresume : resume ≤ pos) : Cuts p x pos t (p.findAllFrom resume pos x t) := by
  -- on the length of the text, since the search resumes behind a whole match
  induction hn : t.length using Nat.strongRecOn generalizing resume pos x t with
  | _ n ih =>
    have hempty : ¬ p.StartsAt x [] := by
      rintro ⟨w, r, hsplit, hacc⟩
      obtain ⟨rfl, rfl⟩ := List.append_eq_nil_iff.mp hsplit.symm
      exact hp x [] hacc
    cases t with
    | nil =>
      rw [findAllFrom, if_neg (by omega), matchAt?_eq_none.mpr hempty]
      exact .done (by rwa [occurs_nil])
    | cons c t =>
      rw [findAllFrom, if_neg (by omega)]
      rw [List.length_cons] at hn
      split
      · next m hm =>
        obtain ⟨w, r, hsplit, hacc, -, hstop⟩ := accepts_of_matchAt? hm
        cases w with
        | nil => exact absurd hacc (hp x r)
        | cons d w =>
          rw [List.cons_append, List.cons.injEq] at hsplit
          obtain ⟨rfl, rfl⟩ := hsplit
          rw [List.length_cons] at hstop
          rw [List.length_append] at hn
          rw [findAllFrom_skip p m.stop (some c) w r (pos + 1) (by omega), hstop]
          exact Cuts.next (g := []) (w := c :: w) (by simp) hacc hm hstop
            (ih r.length (by omega) (Nat.le_refl _) rfl)
      · next hnone =>
        exact .cons (matchAt?_eq_none.mp hnone) (ih t.length (by omega) (by omega) rfl)

/-- **The matches of a search** cut the text. -/
theorem cuts_findAll {p : Pattern} (hp : p.Consumes) (t : Text) : Cuts p none 0 t (p.findAll t) :=
  cuts_findAllFrom hp (Nat.le_refl 0)

end Pattern

end ChartLint
