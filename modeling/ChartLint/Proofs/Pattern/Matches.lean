import ChartLint.Proofs.Pattern.Spelling
import ChartLint.Proofs.Text.Lines

/-!
# All places of a pattern

A search goes on behind the end of each match, so a place at which the pattern matches too may be passed
over. That does not happen to a pattern whose matches keep apart (`Separate`): its search finds every
place of the text at which the pattern matches, each once and from the left (`exists_mem_findAll_iff`,
`pairwise_start_findAll`).

For a construct that is spelled in fixed words this is computed (`separate_of_keepsApart`), and two such
constructs start at the same place only if the letters of the one start with the letters of the other
(`Spells.letters`).
-/

namespace ChartLint.Pattern

open Text

/-! ## Places -/

/-- What a pattern matches at an offset of a text. -/
def matchAtOffset? (p : Pattern) (t : Text) (offset : Nat) : Option Match :=
  p.matchAt? (Cursor.ofOffset t offset)

/-- The pattern matches at an offset of the text. -/
def MatchesAt (p : Pattern) (t : Text) (offset : Nat) : Prop :=
  offset ≤ t.length ∧ (p.matchAtOffset? t offset).isSome = true

instance (p : Pattern) (t : Text) (offset : Nat) : Decidable (p.MatchesAt t offset) :=
  inferInstanceAs (Decidable (_ ∧ _))

theorem matchesAt_append {p : Pattern} {g u : Text} :
    p.MatchesAt (g ++ u) g.length ↔ p.StartsAt (lastOr none g) u := by
  rw [MatchesAt, matchAtOffset?, ofOffset_append, isSome_matchAt?, lastOr_none]
  simp

/-- No match starts inside of another one. -/
def Separate (p : Pattern) : Prop :=
  ∀ ⦃x : Option Char⦄ ⦃w₁ w₂ r : Text⦄, p.Accepts x (w₁ ++ w₂) r → w₁ ≠ [] → w₂ ≠ [] →
    ¬ p.StartsAt (lastOr x w₁) (w₂ ++ r)

section Cuts

variable {p : Pattern} {x : Option Char} {pos : Nat} {t : Text} {ms : List Match}
  (h : Cuts p x pos t ms)

include h

/-- A match starts where the pattern does. -/
theorem Cuts.startsAt {m : Match} (hm : m ∈ ms) :
    ∃ g u, t = g ++ u ∧ m.start = pos + g.length ∧ p.StartsAt (lastOr x g) u := by
  induction h with
  | done => cases hm
  | @next x pos g w r first ms before covers chosen stop others ih =>
    rcases List.mem_cons.mp hm with rfl | hm
    · obtain ⟨-, -, -, -, hstart, -⟩ := accepts_of_matchAt? chosen
      exact ⟨g, w ++ r, rfl, hstart, w, r, rfl, covers⟩
    · obtain ⟨g', u, rfl, hstart, hu⟩ := ih hm
      refine ⟨g ++ (w ++ g'), u, by simp, ?_, by simpa using hu⟩
      rw [hstart, List.length_append, List.length_append]
      omega

/-- A search for a pattern whose matches keep apart finds every one of them. -/
theorem Cuts.exists_mem (hp : p.Separate) {g u : Text} (ht : t = g ++ u)
    (hu : p.StartsAt (lastOr x g) u) :
    ∃ m ∈ ms, p.matchAt? ⟨pos + g.length, lastOr x g, u⟩ = some m := by
  induction h generalizing g with
  | done none => exact absurd ⟨g, u, ht, hu⟩ none
  | @next x pos g₀ w r m ms before covers chosen stop others ih =>
    rcases List.append_eq_append_iff.mp ht with ⟨k, rfl, hk⟩ | ⟨k, rfl, rfl⟩
    · rcases List.append_eq_append_iff.mp hk with ⟨j, rfl, rfl⟩ | ⟨j, rfl, rfl⟩
      · -- behind the first match
        obtain ⟨m', hm', hmatch⟩ := ih rfl (by simpa using hu)
        refine ⟨m', List.mem_cons_of_mem m hm', ?_⟩
        simpa [Nat.add_assoc] using hmatch
      · -- at the first match, or inside of it
        cases k with
        | nil => exact ⟨m, List.mem_cons_self, by simpa using chosen⟩
        | cons c k =>
          cases j with
          | nil =>
            obtain ⟨m', hm', hmatch⟩ := ih (g := []) rfl (by simpa using hu)
            refine ⟨m', List.mem_cons_of_mem m hm', ?_⟩
            simpa [Nat.add_assoc] using hmatch
          | cons d j => exact absurd (by simpa using hu) (hp covers (by simp) (by simp))
    · cases k with
      | nil => exact ⟨m, List.mem_cons_self, by simpa using chosen⟩
      | cons c k => exact absurd ⟨g, c :: k, rfl, by simp, hu⟩ before

/-- The matches of a search stand in the order of the text. -/
theorem Cuts.pairwise_start (hp : p.Consumes) :
    (∀ m ∈ ms, pos ≤ m.start) ∧ ms.Pairwise (fun m m' => m.start < m'.start) := by
  induction h with
  | done => exact ⟨by simp, .nil⟩
  | @next x pos g w r m ms before covers chosen stop others ih =>
    obtain ⟨hbound, hpairwise⟩ := ih
    obtain ⟨-, -, -, -, hstart, -⟩ := accepts_of_matchAt? chosen
    have hw : 0 < w.length := by
      refine List.length_pos_iff.mpr ?_
      rintro rfl
      exact hp _ _ covers
    rw [List.forall_mem_cons]
    refine ⟨⟨by omega, fun m' hm' => ?_⟩, .cons (fun m' hm' => ?_) hpairwise⟩
    · have hle := hbound m' hm'
      omega
    · have hle := hbound m' hm'
      omega

end Cuts

theorem pairwise_start_findAll {p : Pattern} (hp : p.Consumes) (t : Text) :
    (p.findAll t).Pairwise (fun m m' => m.start < m'.start) :=
  ((cuts_findAll hp t).pairwise_start hp).2

/-- **A search finds every place** at which the pattern matches, and no other. -/
theorem exists_mem_findAll_iff {p : Pattern} (hp : p.Consumes) (hseparate : p.Separate) {t : Text}
    {offset : Nat} : (∃ m ∈ p.findAll t, m.start = offset) ↔ p.MatchesAt t offset := by
  have hcuts := cuts_findAll hp t
  constructor
  · rintro ⟨m, hm, rfl⟩
    obtain ⟨g, u, rfl, hstart, hu⟩ := hcuts.startsAt hm
    rw [hstart, Nat.zero_add]
    exact matchesAt_append.mpr hu
  · intro h
    obtain ⟨g, u, rfl, rfl⟩ := exists_append h.1
    obtain ⟨m, hm, hmatch⟩ := hcuts.exists_mem hseparate rfl (matchesAt_append.mp h)
    obtain ⟨-, -, -, -, hstart, -⟩ := accepts_of_matchAt? hmatch
    exact ⟨m, hm, by rw [hstart, Nat.zero_add]⟩

/-! ## Spelled constructs -/

/-- The fixed texts of a construct. -/
def inks : List Part → List Text
  | [] => []
  | .ink t :: parts => t :: inks parts
  | .space _ :: parts => inks parts

/-- A pattern that starts at no blank and at no fixed text of a construct starts nowhere in it. -/
theorem noStart_of_spells {p : Pattern} (hblank : ∀ c, isBlank c = true → p.NoStart [c])
    {parts : List Part} (hinks : ∀ t ∈ inks parts, p.NoStart t) {w : Text} (h : Spells parts w) :
    p.NoStart w := by
  induction parts generalizing w with
  | nil =>
    rw [show w = [] from h]
    exact fun x b => not_begins_nil p x b
  | cons part parts ih =>
    cases part with
    | ink t =>
      obtain ⟨w', rfl, hw'⟩ := h
      have hrest := ih (fun u hu => hinks u (List.mem_cons_of_mem t hu)) hw'
      exact (hinks t List.mem_cons_self).append hrest
    | space needed =>
      obtain ⟨s, w', rfl, hs, -, hw'⟩ := h
      exact (noStart_of_forall (fun c hc => hblank c (hs c hc))).append (ih hinks hw')

/-- A computed reason for the matches of a spelled pattern to keep apart: the pattern starts at no blank
and at none of the fixed texts, of the first one the first letter aside. -/
def keepsApart (p : Pattern) : List Part → Bool
  | .ink (_ :: t) :: parts =>
    blankCodes.all (fun n => p.startFree [Char.ofNat n]) && (t :: inks parts).all p.startFree
  | _ => false

theorem separate_of_keepsApart {p : Pattern} {parts : List Part}
    (hp : ∀ x w r, p.Accepts x w r → Spells parts w) (h : p.keepsApart parts = true) :
    p.Separate := by
  unfold keepsApart at h
  split at h
  · next c t parts =>
    rw [Bool.and_eq_true, List.all_eq_true, List.all_eq_true] at h
    have hblank : ∀ c, isBlank c = true → p.NoStart [c] := fun c hc =>
      forall_of_isBlank (P := fun c => p.NoStart [c]) (fun n hn => noStart_of_startFree (h.1 n hn)) hc
    have hinks : ∀ u ∈ inks (.ink t :: parts), p.NoStart u := fun u hu => noStart_of_startFree (h.2 u hu)
    intro x w₁ w₂ r hacc h₁ h₂ hstart
    obtain ⟨w', hw', hspells⟩ := hp _ _ _ hacc
    obtain ⟨d, front, rfl⟩ := List.exists_cons_of_ne_nil h₁
    rw [List.cons_append, List.cons_append, List.cons.injEq] at hw'
    -- the part that is left starts behind the first letter, so it lies in what is spelled from there
    have hrest : Spells (.ink t :: parts) (front ++ w₂) := ⟨w', hw'.2, hspells⟩
    exact noStart_of_spells hblank hinks hrest (some d) r ⟨front, w₂, rfl, h₂, hstart⟩
  · cases h

/-- **The letters of a text that starts with a construct** start with those of the construct. -/
theorem Spells.letters {parts : List Part} (hparts : isSpaced parts = true) {w : Text}
    (h : Spells parts w) (r : Text) :
    (inks parts).flatten <+: (w ++ r).filter (fun c => !isBlank c) := by
  induction parts generalizing w with
  | nil => exact List.nil_prefix
  | cons part parts ih =>
    have htail := isSpaced_tail hparts
    cases part with
    | ink t =>
      obtain ⟨w', rfl, hw'⟩ := h
      have hink : t.filter (fun c => !isBlank c) = t :=
        List.filter_eq_self.mpr (fun c hc => by rw [(isBlank_of_mem_ink hparts).2 c hc]; rfl)
      rw [inks, List.flatten_cons, List.append_assoc, List.filter_append, hink,
        List.prefix_append_right_inj]
      exact ih htail hw'
    | space needed =>
      obtain ⟨s, w', rfl, hs, -, hw'⟩ := h
      have hnone : s.filter (fun c => !isBlank c) = [] :=
        List.filter_eq_nil_iff.mpr (fun c hc => by rw [hs c hc]; decide)
      rw [inks, List.append_assoc, List.filter_append, hnone, List.nil_append]
      exact ih htail hw'

end ChartLint.Pattern
