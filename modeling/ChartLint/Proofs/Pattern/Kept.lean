import ChartLint.Proofs.Pattern.Seam

/-!
# What a pattern keeps

A match keeps parts of what it covers. Each part is a text that one of the patterns under the slot
accepts (`kept_of_mem_ends`), so what all of those patterns have in common is true of every part that
a search gives back (`Found.forall_mem_part`).
-/

namespace ChartLint.Pattern

open Text

/-- The patterns whose text is kept under a slot. -/
def keptBy (slot : Slot) : Pattern → List Pattern
  | .seq p q | .alt p q => p.keptBy slot ++ q.keptBy slot
  | .star p => p.keptBy slot
  | .keep s p => (if s = slot then [p] else []) ++ p.keptBy slot
  | _ => []

/-- The span covers, in the text behind a place, a text that one of the patterns accepts. -/
def Covers (qs : List Pattern) (c : Cursor) (s : Span) : Prop :=
  ∃ q ∈ qs, ∃ u w r x, c.rest = u ++ (w ++ r) ∧ q.Accepts x w r
    ∧ s = ⟨c.pos + u.length, c.pos + u.length + w.length⟩

theorem Covers.mono {qs qs' : List Pattern} (h : ∀ q ∈ qs, q ∈ qs') {c : Cursor} {s : Span}
    (hs : Covers qs c s) : Covers qs' c s := by
  obtain ⟨q, hq, hcover⟩ := hs
  exact ⟨q, h q hq, hcover⟩

/-- What is covered behind a later place is covered behind an earlier one. -/
theorem Covers.before {qs : List Pattern} {c : Cursor} {w r : Text} {x : Option Char}
    (hrest : c.rest = w ++ r) {s : Span} (hs : Covers qs ⟨c.pos + w.length, x, r⟩ s) :
    Covers qs c s := by
  obtain ⟨q, hq, u, w', r', y, hsplit, hacc, rfl⟩ := hs
  simp only at hsplit
  refine ⟨q, hq, w ++ u, w', r', y, ?_, hacc, ?_⟩
  · rw [hrest, hsplit, List.append_assoc]
  · simp only [List.length_append, Span.mk.injEq]
    omega

theorem kept_repeated {slot : Slot} {qs : List Pattern} {p : Pattern}
    (hstep : ∀ (c : Cursor) (e : Ending), e ∈ p.ends c → ∀ s, (slot, s) ∈ e.kept → Covers qs c s)
    {bound : Nat} {c : Cursor} {e : Ending} (he : e ∈ repeated p.ends bound c) {s : Span}
    (hs : (slot, s) ∈ e.kept) : Covers qs c s := by
  induction bound generalizing c e with
  | zero =>
    rw [repeated, List.mem_singleton] at he
    subst he
    cases hs
  | succ bound ih =>
    simp only [repeated, List.mem_append, List.mem_flatMap, List.mem_filter, List.mem_map,
      List.mem_singleton] at he
    rcases he with ⟨e₁, ⟨h₁, -⟩, e₂, h₂, rfl⟩ | rfl
    · obtain ⟨w, r, hrest, -, hhere⟩ := accepts_of_mem_ends h₁
      rcases List.mem_append.mp hs with hs | hs
      · exact hstep c e₁ h₁ s hs
      · have hlater := ih h₂ hs
        rw [hhere] at hlater
        exact hlater.before hrest
    · cases hs

/-- **Every kept span** covers a text that a pattern under the slot accepts. -/
theorem kept_of_mem_ends {p : Pattern} {slot : Slot} {c : Cursor} {e : Ending} (he : e ∈ p.ends c)
    {s : Span} (hs : (slot, s) ∈ e.kept) : Covers (p.keptBy slot) c s := by
  induction p generalizing c e s with
  | seq p q ihp ihq =>
    obtain ⟨e₁, h₁, e₂, h₂, rfl⟩ := mem_ends_seq.mp he
    rcases List.mem_append.mp hs with hs | hs
    · exact (ihp h₁ hs).mono (fun q hq => List.mem_append_left _ hq)
    · obtain ⟨w, r, hrest, -, hhere⟩ := accepts_of_mem_ends h₁
      have hlater := ihq h₂ hs
      rw [hhere] at hlater
      exact (hlater.before hrest).mono (fun q hq => List.mem_append_right _ hq)
  | alt p q ihp ihq =>
    rcases List.mem_append.mp he with h | h
    · exact (ihp h hs).mono (fun q hq => List.mem_append_left _ hq)
    · exact (ihq h hs).mono (fun q hq => List.mem_append_right _ hq)
  | star p ih => exact kept_repeated (fun c e he s hs => ih he hs) he hs
  | keep s' p ih =>
    obtain ⟨e', h', rfl⟩ := mem_ends_keep.mp he
    -- the span is the one that is kept here, or one that was kept inside of it
    rcases List.mem_cons.mp hs with heq | hs
    · obtain ⟨rfl, rfl⟩ := Prod.mk.inj heq
      obtain ⟨w, r, hrest, hacc, hhere⟩ := accepts_of_mem_ends h'
      exact ⟨p, by simp [keptBy], [], w, r, c.before, hrest, hacc, by simp [hhere]⟩
    · exact (ih h' hs).mono (fun q hq => List.mem_append_right _ hq)
  | one cls =>
    simp only [ends] at he
    split at he
    · cases he
    · split at he
      · rw [List.mem_singleton.mp he] at hs
        cases hs
      · cases he
  | run greed cls =>
    have hmem : ∃ c' ∈ Cursor.reach cls c.pos c.before c.rest, Ending.plain c' = e := by
      cases greed <;> simpa [ends] using he
    obtain ⟨c', -, rfl⟩ := hmem
    cases hs
  | empty =>
    rw [List.mem_singleton.mp he] at hs
    cases hs
  | edge | notAfter | ahead | textStart | lineStart | textEnd =>
    simp only [ends] at he
    split at he
    all_goals
      first
        | cases he; done
        | rw [List.mem_singleton.mp he] at hs
          cases hs

/-- Every match keeps something under the slot. -/
def keeps (slot : Slot) : Pattern → Bool
  | .seq p q => p.keeps slot || q.keeps slot
  | .alt p q => p.keeps slot && q.keeps slot
  | .keep s p => decide (s = slot) || p.keeps slot
  | _ => false

/-- A pattern that keeps a slot has an entry for it in every way. -/
theorem exists_mem_kept {p : Pattern} {slot : Slot} (hp : p.keeps slot = true) {c : Cursor}
    {e : Ending} (he : e ∈ p.ends c) : ∃ s, (slot, s) ∈ e.kept := by
  induction p generalizing c e with
  | seq p q ihp ihq =>
    obtain ⟨e₁, h₁, e₂, h₂, rfl⟩ := mem_ends_seq.mp he
    rcases Bool.or_eq_true_iff.mp hp with hp | hq
    · obtain ⟨s, hs⟩ := ihp hp h₁
      exact ⟨s, List.mem_append_left _ hs⟩
    · obtain ⟨s, hs⟩ := ihq hq h₂
      exact ⟨s, List.mem_append_right _ hs⟩
  | alt p q ihp ihq =>
    rw [keeps, Bool.and_eq_true] at hp
    rcases List.mem_append.mp he with h | h
    · exact ihp hp.1 h
    · exact ihq hp.2 h
  | keep s p ih =>
    obtain ⟨e', h', rfl⟩ := mem_ends_keep.mp he
    rcases Bool.or_eq_true_iff.mp hp with hslot | hp
    · rw [of_decide_eq_true hslot]
      exact ⟨_, List.mem_cons_self⟩
    · obtain ⟨s', hs'⟩ := ih hp h'
      exact ⟨s', List.mem_cons_of_mem _ hs'⟩
  | empty | one | run | star | edge | notAfter | ahead | textStart | lineStart | textEnd => cases hp

/-- The entry that counts is the newest one. -/
theorem exists_lookup {p : Pattern} {slot : Slot} (hp : p.keeps slot = true) {c : Cursor} {e : Ending}
    (he : e ∈ p.ends c) : ∃ s, e.kept.lookup slot = some s ∧ (slot, s) ∈ e.kept := by
  cases hlook : e.kept.lookup slot with
  | none =>
    obtain ⟨s, hs⟩ := exists_mem_kept hp he
    have hslot := List.lookup_eq_none_iff.mp hlook _ hs
    simp at hslot
  | some s =>
    obtain ⟨l₁, l₂, hkept, -⟩ := List.lookup_eq_some_iff.mp hlook
    exact ⟨s, rfl, by rw [hkept]; simp⟩

/-! ## Parts of a match -/

/-- A match that a text has at one of its places. -/
def Found (p : Pattern) (t : Text) (m : Match) : Prop :=
  ∃ g x r, t = g ++ r ∧ p.matchAt? ⟨g.length, x, r⟩ = some m

theorem found_of_findFrom? {p : Pattern} {t g r : Text} {x : Option Char} {m : Match}
    (ht : t = g ++ r) (h : p.findFrom? g.length x r = some m) : Found p t m := by
  obtain ⟨g', r', rfl, -, hm⟩ := findFrom?_eq_some.mp h
  exact ⟨g ++ g', lastOr x g', r', by rw [ht, List.append_assoc], by rwa [List.length_append]⟩

theorem found_of_find? {p : Pattern} {t : Text} {m : Match} (h : p.find? t = some m) :
    Found p t m :=
  found_of_findFrom? (g := []) rfl h

theorem found_of_findAllFrom {p : Pattern} {t g r : Text} {resume : Nat} {x : Option Char}
    {m : Match} (ht : t = g ++ r) (h : m ∈ p.findAllFrom resume g.length x r) : Found p t m := by
  induction r generalizing g x resume with
  | nil =>
    rw [findAllFrom] at h
    split at h
    · cases h
    · exact ⟨g, x, [], ht, Option.mem_toList.mp h⟩
  | cons c r ih =>
    have hnext : t = (g ++ [c]) ++ r := by rw [ht, List.append_assoc, List.singleton_append]
    have hlater : ∀ {resume' : Nat}, m ∈ p.findAllFrom resume' (g.length + 1) (some c) r →
        Found p t m := by
      intro resume' hmem
      exact ih hnext (by rwa [List.length_append])
    rw [findAllFrom] at h
    split at h
    · exact hlater h
    · split at h
      · next m' hm' =>
        rcases List.mem_cons.mp h with rfl | hmem
        · exact ⟨g, x, c :: r, ht, hm'⟩
        · exact hlater hmem
      · exact hlater h

/-- What a search gives was found in the text. -/
theorem found_of_mem_findAll {p : Pattern} {t : Text} {m : Match} (h : m ∈ p.findAll t) :
    Found p t m :=
  found_of_findAllFrom (g := []) rfl h

/-- **A part of a match** is a text that a pattern under the slot accepts, or there is none. -/
theorem Found.part_or {p : Pattern} {t : Text} {m : Match} (h : Found p t m) (slot : Slot) :
    m.kept.lookup slot = none
      ∨ ∃ q ∈ p.keptBy slot, ∃ u w r x, t = u ++ (w ++ r) ∧ q.Accepts x w r
        ∧ m.span slot = ⟨u.length, u.length + w.length⟩ ∧ m.part slot t = w := by
  obtain ⟨g, x, r, rfl, hm⟩ := h
  rw [matchAt?, Option.map_eq_some_iff] at hm
  obtain ⟨e, he, rfl⟩ := hm
  rw [Match.part, Match.span]
  cases hlook : e.kept.lookup slot with
  | none => exact .inl rfl
  | some s =>
    right
    have hmem : (slot, s) ∈ e.kept := by
      obtain ⟨l₁, l₂, hkept, -⟩ := List.lookup_eq_some_iff.mp hlook
      rw [hkept]
      simp
    obtain ⟨q, hq, u, w, r', y, hrest, hacc, rfl⟩ := kept_of_mem_ends (List.mem_of_head? he) hmem
    simp only at hrest
    refine ⟨q, hq, g ++ u, w, r', y, by rw [hrest, List.append_assoc], hacc, by simp, ?_⟩
    simp only [Option.getD_some, within, slice, hrest]
    rw [← List.append_assoc, ← List.append_assoc, ← List.length_append, ← List.length_append,
      List.take_left, List.length_append, ← List.length_append, List.drop_left]

/-- A match lies inside the text. -/
theorem Found.bounds {p : Pattern} {t : Text} {m : Match} (h : Found p t m) :
    m.start ≤ m.stop ∧ m.stop ≤ t.length := by
  obtain ⟨g, x, r, rfl, hm⟩ := h
  obtain ⟨w, r', rfl, -, hstart, hstop⟩ := accepts_of_matchAt? hm
  rw [hstart, hstop, List.length_append, List.length_append]
  omega

theorem Found.span_le {p : Pattern} {t : Text} {m : Match} (h : Found p t m) (slot : Slot) :
    (m.span slot).start ≤ t.length ∧ (m.span slot).stop ≤ t.length := by
  have hbounds := h.bounds
  rcases h.part_or slot with hnone | ⟨-, -, u, w, r, -, rfl, -, hspan, -⟩
  · rw [Match.span, hnone]
    exact ⟨Nat.le_trans hbounds.1 hbounds.2, Nat.le_trans hbounds.1 hbounds.2⟩
  · rw [hspan]
    simp only [List.length_append]
    constructor <;> omega

/-- What all patterns under a slot say of what they accept is true of the part of a match. -/
theorem Found.forall_mem_part {p : Pattern} {t : Text} {m : Match} (h : Found p t m) {slot : Slot}
    {P : Char → Prop} (hp : ∀ q ∈ p.keptBy slot, ∀ x w r, q.Accepts x w r → ∀ c ∈ w, P c) :
    ∀ c ∈ m.part slot t, P c := by
  rcases h.part_or slot with hnone | ⟨q, hq, u, w, r, x, -, hacc, -, hpart⟩
  · have hnil : m.part slot t = [] := by simp [Match.part, Match.span, hnone, within, slice]
    rw [hnil]
    exact fun c hc => absurd hc List.not_mem_nil
  · rw [hpart]
    exact hp q hq x w r hacc

/-- A part that every match keeps, and that is never empty. -/
theorem Found.part_ne_nil {p : Pattern} {t : Text} {m : Match} (h : Found p t m) {slot : Slot}
    (hkeeps : p.keeps slot = true) (hp : ∀ q ∈ p.keptBy slot, q.mayBeEmpty = false) :
    m.part slot t ≠ [] := by
  rcases h.part_or slot with hnone | ⟨q, hq, u, w, r, x, -, hacc, -, hpart⟩
  · obtain ⟨g, x, r, rfl, hm⟩ := h
    rw [matchAt?, Option.map_eq_some_iff] at hm
    obtain ⟨e, he, rfl⟩ := hm
    obtain ⟨s, hlook, -⟩ := exists_lookup hkeeps (List.mem_of_head? he)
    rw [hlook] at hnone
    cases hnone
  · rw [hpart]
    rintro rfl
    exact consumes_of_mayBeEmpty (hp q hq) x r hacc

/-! ## The last part of a match -/

/-- What the pattern keeps under the slot ends where the pattern ends. -/
def KeepsLast (slot : Slot) (p : Pattern) : Prop :=
  ∀ (c : Cursor) (e : Ending), e ∈ p.ends c → ∀ s, (slot, s) ∈ e.kept → s.stop = e.here.pos

/-- A pattern that does not keep a slot has no entry for it in any way. -/
theorem not_mem_kept {p : Pattern} {slot : Slot} (hp : p.keptBy slot = []) {c : Cursor} {e : Ending}
    (he : e ∈ p.ends c) (s : Span) : (slot, s) ∉ e.kept := by
  intro hs
  obtain ⟨q, hq, -⟩ := kept_of_mem_ends he hs
  rw [hp] at hq
  cases hq

theorem keepsLast_keep {p : Pattern} {slot : Slot} (hp : p.keptBy slot = []) :
    KeepsLast slot (.keep slot p) := by
  intro c e he s hs
  obtain ⟨e', he', rfl⟩ := mem_ends_keep.mp he
  rcases List.mem_cons.mp hs with heq | hs
  · obtain ⟨-, rfl⟩ := Prod.mk.inj heq
    rfl
  · exact absurd hs (not_mem_kept hp he' s)

theorem KeepsLast.append_left {p q : Pattern} {slot : Slot} (hp : p.keptBy slot = [])
    (hq : KeepsLast slot q) : KeepsLast slot (p ++ q) := by
  intro c e he s hs
  rw [ends_followedBy] at he
  obtain ⟨e₁, h₁, e₂, h₂, rfl⟩ := mem_ends_seq.mp he
  rcases List.mem_append.mp hs with hs | hs
  · exact absurd hs (not_mem_kept hp h₁ s)
  · exact hq e₁.here e₂ h₂ s hs

theorem KeepsLast.append_edge {p : Pattern} {slot : Slot} (hp : KeepsLast slot p) :
    KeepsLast slot (p ++ Pattern.edge) := by
  intro c e he s hs
  rw [ends_followedBy] at he
  obtain ⟨e₁, h₁, e₂, h₂, rfl⟩ := mem_ends_seq.mp he
  simp only [ends] at h₂
  split at h₂
  · rw [List.mem_singleton] at h₂
    subst h₂
    rcases List.mem_append.mp hs with hs | hs
    · exact hp c e₁ h₁ s hs
    · cases hs
  · cases h₂

/-- **The last part of a match** is what the match ends with. -/
theorem Found.part_of_keepsLast {p : Pattern} {t : Text} {m : Match} (h : Found p t m) {slot : Slot}
    (hkeeps : p.keeps slot = true) (hlast : KeepsLast slot p) :
    ∃ g w r x, t = g ++ (w ++ r) ∧ p.Accepts x w r
      ∧ ∃ q ∈ p.keptBy slot, ∃ u y r', g ++ w = u ++ m.part slot t ∧ q.Accepts y (m.part slot t) r' := by
  have hpart := h.part_or slot
  obtain ⟨g, x, rest, rfl, hm⟩ := h
  obtain ⟨w, r, rfl, hacc, -, hstop⟩ := accepts_of_matchAt? hm
  refine ⟨g, w, r, x, rfl, hacc, ?_⟩
  rw [matchAt?, Option.map_eq_some_iff] at hm
  obtain ⟨e, he, rfl⟩ := hm
  have hmem := List.mem_of_head? he
  obtain ⟨s, hlook, hs⟩ := exists_lookup hkeeps hmem
  obtain ⟨q, hq, u, v, r', y, hsplit, hacc', hspan, heq⟩ := hpart.resolve_left (by simp [hlook])
  rw [heq]
  refine ⟨q, hq, u, y, r', ?_, hacc'⟩
  -- both texts end with the match
  have hend : s.stop = g.length + w.length := (hlast _ e hmem s hs).trans hstop
  simp only [Match.span, hlook, Option.getD_some] at hspan
  have hlen : (g ++ w).length = (u ++ v).length := by
    rw [List.length_append, List.length_append, ← hend, hspan]
  have hcut : (g ++ w) ++ r = (u ++ v) ++ r' := by
    simpa only [List.append_assoc] using hsplit
  exact (List.append_inj hcut hlen).1

end ChartLint.Pattern
