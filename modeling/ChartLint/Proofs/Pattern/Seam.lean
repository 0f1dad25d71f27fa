import ChartLint.Proofs.Pattern.Accepts

/-!
# Matches at a seam

A rewriting pass cuts a text and puts another piece into the cut. Which matches does a pattern lose
or gain by that? Most patterns are *local*: beyond the text they cover they see one character on
either side (`accepts_congr_right`, `accepts_congr_left`). For a local pattern it is enough that no
match runs from the left into the piece and that none starts in it, and both can be computed from
the pattern and the piece alone: `entryFree` and `startFree` follow the pattern along the piece and
count its assertions as satisfied where the piece does not decide them, so their verdict holds
whatever stands around the piece.
-/

namespace ChartLint.Pattern

open Text

/-! ## Local patterns -/

/-- The pattern sees nothing beyond the characters next to what it covers, and a line feed in front
of it is the same to it as the start of the text. -/
def isLocal : Pattern → Bool
  | .empty | .one _ | .run _ _ | .edge | .lineStart => true
  | .notAfter cls => !cls '\n'
  | .seq p q | .alt p q => p.isLocal && q.isLocal
  | .star p | .keep _ p => p.isLocal
  | .ahead _ | .textStart | .textEnd => false

/-- The first characters of two texts are both word characters or both not. -/
def SameHead (r r' : Text) : Prop :=
  r.head?.any isWord = r'.head?.any isWord

theorem SameHead.append (w : Text) {r r' : Text} (h : SameHead r r') :
    SameHead (w ++ r) (w ++ r') := by
  cases w with
  | nil => exact h
  | cons c w => exact rfl

theorem rounds_congr_right {accepts : Option Char → Text → Text → Prop}
    (haccepts : ∀ x w r r', SameHead r r' → accepts x w r → accepts x w r') {x : Option Char}
    {w r r' : Text} (hr : SameHead r r') (h : Rounds accepts x w r) : Rounds accepts x w r' := by
  induction h with
  | done x r => exact .done x r'
  | more hne first others ih => exact .more hne (haccepts _ _ _ _ (hr.append _) first) (ih hr)

/-- A local pattern sees one character behind what it covers. -/
theorem accepts_congr_right {p : Pattern} (hp : p.isLocal = true) {x : Option Char} {w r r' : Text}
    (hr : SameHead r r') (h : p.Accepts x w r) : p.Accepts x w r' := by
  induction p generalizing x w r r' with
  | empty | one | run | notAfter | lineStart => exact h
  | edge => exact ⟨h.1, by rw [← hr]; exact h.2⟩
  | seq p q ihp ihq =>
    rw [isLocal, Bool.and_eq_true] at hp
    obtain ⟨w₁, w₂, rfl, h₁, h₂⟩ := h
    exact ⟨w₁, w₂, rfl, ihp hp.1 (hr.append w₂) h₁, ihq hp.2 hr h₂⟩
  | alt p q ihp ihq =>
    rw [isLocal, Bool.and_eq_true] at hp
    exact h.imp (ihp hp.1 hr) (ihq hp.2 hr)
  | star p ih =>
    rw [isLocal] at hp
    have hcongr : ∀ x w r r', SameHead r r' → p.Accepts x w r → p.Accepts x w r' :=
      fun _ _ _ _ hr h => ih hp hr h
    exact rounds_congr_right hcongr hr h
  | keep slot p ih =>
    rw [isLocal] at hp
    rw [Accepts] at h ⊢
    exact ih hp hr h
  | ahead | textStart | textEnd => cases hp

/-- Two characters, if any, that are the same to a local pattern when they stand in front of it. -/
def SameFront (x x' : Option Char) : Prop :=
  x = x' ∨ (x.all (· == '\n') = true ∧ x'.all (· == '\n') = true)

theorem SameFront.lastOr {x x' : Option Char} (h : SameFront x x') (w : Text) :
    SameFront (Text.lastOr x w) (Text.lastOr x' w) := by
  cases w with
  | nil => exact h
  | cons c w => exact .inl rfl

theorem SameFront.symm {x x' : Option Char} (h : SameFront x x') : SameFront x' x :=
  h.imp Eq.symm And.symm

/-- A class that has no line feed does not tell two such characters apart. -/
theorem SameFront.any {x x' : Option Char} (h : SameFront x x') {cls : Char → Bool}
    (hcls : cls '\n' = false) : x.any cls = x'.any cls := by
  have hnone : ∀ y : Option Char, y.all (· == '\n') = true → y.any cls = false := by
    intro y hy
    cases y with
    | none => rfl
    | some c =>
      rw [Option.all_some, beq_iff_eq] at hy
      rw [hy]
      exact hcls
  rcases h with rfl | ⟨hx, hx'⟩
  · rfl
  · rw [hnone x hx, hnone x' hx']

theorem rounds_congr_left {accepts : Option Char → Text → Text → Prop}
    (haccepts : ∀ x x' w r, SameFront x x' → accepts x w r → accepts x' w r) {x x' : Option Char}
    {w r : Text} (hx : SameFront x x') (h : Rounds accepts x w r) : Rounds accepts x' w r := by
  induction h generalizing x' with
  | done x r => exact .done x' r
  | more hne first others ih => exact .more hne (haccepts _ _ _ _ hx first) (ih (hx.lastOr _))

/-- A local pattern sees one character in front of what it covers. -/
theorem accepts_congr_left {p : Pattern} (hp : p.isLocal = true) {x x' : Option Char} {w r : Text}
    (hx : SameFront x x') (h : p.Accepts x w r) : p.Accepts x' w r := by
  induction p generalizing x x' w r with
  | empty | one | run => exact h
  | edge => exact ⟨h.1, by rw [← hx.any (by decide)]; exact h.2⟩
  | notAfter cls =>
    have hcls : cls '\n' = false := by simpa [isLocal] using hp
    exact ⟨h.1, by rw [← hx.any hcls]; exact h.2⟩
  | lineStart =>
    rcases hx with rfl | ⟨-, hx'⟩
    · exact h
    · exact ⟨h.1, hx'⟩
  | seq p q ihp ihq =>
    rw [isLocal, Bool.and_eq_true] at hp
    obtain ⟨w₁, w₂, rfl, h₁, h₂⟩ := h
    exact ⟨w₁, w₂, rfl, ihp hp.1 hx h₁, ihq hp.2 (hx.lastOr w₁) h₂⟩
  | alt p q ihp ihq =>
    rw [isLocal, Bool.and_eq_true] at hp
    exact h.imp (ihp hp.1 hx) (ihq hp.2 hx)
  | star p ih =>
    rw [isLocal] at hp
    have hcongr : ∀ x x' w r, SameFront x x' → p.Accepts x w r → p.Accepts x' w r :=
      fun _ _ _ _ hx h => ih hp hx h
    exact rounds_congr_left hcongr hx h
  | keep slot p ih =>
    rw [isLocal] at hp
    rw [Accepts] at h ⊢
    exact ih hp hx h
  | ahead | textStart | textEnd => cases hp

/-- What stands in front of a text matters to its matches only as far as `SameFront` tells. -/
theorem occurs_congr_front {p : Pattern} (hp : p.isLocal = true) {x x' : Option Char}
    (hx : SameFront x x') (t : Text) : p.Occurs x t ↔ p.Occurs x' t := by
  have himp : ∀ {y y' : Option Char}, SameFront y y' → p.Occurs y t → p.Occurs y' t := by
    intro y y' hy h
    obtain ⟨a, b, rfl, w, r, rfl, hacc⟩ := h
    exact ⟨a, w ++ r, rfl, w, r, rfl, accepts_congr_left hp (hy.lastOr a) hacc⟩
  exact ⟨himp hx, himp hx.symm⟩

/-! ## Following a pattern along a piece -/

/-- Whether a run of a class, followed by `k`, can go on along the piece. -/
def meetsRun (cls : Char → Bool) (k : Text → Bool) : Text → Bool
  | [] => true
  | c :: v => k (c :: v) || (cls c && meetsRun cls k v)

/-- Whether the pattern, followed by `k`, may go along the piece or beyond its end. Assertions count
as satisfied. -/
def meets : Pattern → (Text → Bool) → Text → Bool
  | .one _, _, [] => true
  | .one cls, k, c :: v => cls c && k v
  | .run _ cls, k, v => meetsRun cls k v
  | .seq p q, k, v => p.meets (q.meets k) v
  | .alt p q, k, v => p.meets k v || q.meets k v
  | .star _, _, _ => true
  | .keep _ p, k, v => p.meets k v
  | .empty, k, v | .edge, k, v | .notAfter _, k, v | .ahead _, k, v | .textStart, k, v
  | .lineStart, k, v | .textEnd, k, v => k v

/-- Whether the pattern, followed by `k`, may take a character in front of the piece and then go on
along the piece or beyond its end. -/
def enters : Pattern → (Text → Bool) → Text → Bool
  | .one _, k, v => k v
  | .run _ cls, k, v => meetsRun cls k v
  | .seq p q, k, v => p.enters (q.meets k) v || q.enters k v
  | .alt p q, k, v => p.enters k v || q.enters k v
  | .star _, _, _ => true
  | .keep _ p, k, v => p.enters k v
  | _, _, _ => false

theorem meetsRun_of_all {cls : Char → Bool} {k : Text → Bool} {w r v b : Text}
    (hall : ∀ c ∈ w, cls c = true) (hsplit : w ++ r = v ++ b)
    (hk : w.length ≤ v.length → k (v.drop w.length) = true) : meetsRun cls k v = true := by
  induction v generalizing w with
  | nil => rfl
  | cons c v ih =>
    rw [meetsRun]
    cases w with
    | nil =>
      have hkv : k (c :: v) = true := hk (Nat.zero_le _)
      rw [hkv, Bool.true_or]
    | cons d w =>
      rw [List.cons_append, List.cons_append, List.cons.injEq] at hsplit
      obtain ⟨rfl, hsplit⟩ := hsplit
      have hrest := ih (fun x hx => hall x (by simp [hx])) hsplit
        (fun hle => hk (Nat.succ_le_succ hle))
      rw [hall d (by simp), hrest, Bool.and_self, Bool.or_true]

/-- **What is accepted along a piece is foreseen.** -/
theorem meets_of_accepts {p : Pattern} {k : Text → Bool} {x : Option Char} {w r v b : Text}
    (hacc : p.Accepts x w r) (hsplit : w ++ r = v ++ b)
    (hk : w.length ≤ v.length → k (v.drop w.length) = true) : p.meets k v = true := by
  induction p generalizing k x w r v with
  | one cls =>
    obtain ⟨c, rfl, hcls⟩ := hacc
    cases v with
    | nil => rfl
    | cons d v =>
      rw [List.cons_append, List.nil_append, List.cons_append, List.cons.injEq] at hsplit
      obtain ⟨rfl, -⟩ := hsplit
      have hkv : k v = true := by simpa using hk (by simp)
      rw [meets, hcls, hkv, Bool.and_self]
  | run greed cls => exact meetsRun_of_all hacc hsplit hk
  | seq p q ihp ihq =>
    obtain ⟨w₁, w₂, rfl, h₁, h₂⟩ := hacc
    rw [List.append_assoc] at hsplit
    -- the second part meets what the first one leaves of the piece
    refine ihp h₁ hsplit (fun hle => ihq h₂ ?_ (fun hle₂ => ?_))
    · have hdrop := congrArg (List.drop w₁.length) hsplit
      rwa [List.drop_left, List.drop_append_of_le_length hle] at hdrop
    · rw [List.length_drop] at hle₂
      rw [List.drop_drop, ← List.length_append]
      exact hk (by rw [List.length_append]; omega)
  | alt p q ihp ihq =>
    rw [meets, Bool.or_eq_true]
    exact hacc.imp (fun h => ihp h hsplit hk) (fun h => ihq h hsplit hk)
  | star => rfl
  | keep slot p ih =>
    rw [Accepts] at hacc
    rw [meets]
    exact ih hacc hsplit hk
  | empty =>
    cases (hacc : w = [])
    exact hk (Nat.zero_le _)
  | edge | notAfter | ahead | textStart | lineStart | textEnd =>
    obtain ⟨rfl, -⟩ := hacc
    exact hk (Nat.zero_le _)

/-- **What is accepted across the front of a piece is foreseen.** -/
theorem enters_of_accepts {p : Pattern} {k : Text → Bool} {x : Option Char} {a w r v b : Text}
    (hacc : p.Accepts x (a ++ w) r) (ha : a ≠ []) (hsplit : w ++ r = v ++ b)
    (hk : w.length ≤ v.length → k (v.drop w.length) = true) : p.enters k v = true := by
  induction p generalizing k x a w r v with
  | one cls =>
    obtain ⟨c, hc, hcls⟩ := hacc
    obtain ⟨d, a', rfl⟩ := List.exists_cons_of_ne_nil ha
    rw [List.cons_append, List.cons.injEq, List.append_eq_nil_iff] at hc
    obtain ⟨rfl, rfl, rfl⟩ := hc
    exact hk (Nat.zero_le _)
  | run greed cls => exact meetsRun_of_all (fun c hc => hacc c (by simp [hc])) hsplit hk
  | seq p q ihp ihq =>
    obtain ⟨w₁, w₂, hcut, h₁, h₂⟩ := hacc
    rw [enters, Bool.or_eq_true]
    -- the front of the piece lies in what `p` covers or in what `q` covers
    rcases List.append_eq_append_iff.mp hcut with ⟨a', rfl, rfl⟩ | ⟨a', rfl, rfl⟩
    · rw [List.append_assoc] at hsplit
      refine .inl (ihp h₁ ha hsplit (fun hle => meets_of_accepts (b := b) h₂ ?_ (fun hle₂ => ?_)))
      · have hdrop := congrArg (List.drop a'.length) hsplit
        rwa [List.drop_left, List.drop_append_of_le_length hle] at hdrop
      · rw [List.length_drop] at hle₂
        rw [List.drop_drop, ← List.length_append]
        exact hk (by rw [List.length_append]; omega)
    · cases a' with
      | nil =>
        rw [List.append_nil] at ha
        rw [← List.append_nil w₁] at h₁
        exact .inl (ihp h₁ ha hsplit (fun _ => meets_of_accepts h₂ hsplit hk))
      | cons c a' => exact .inr (ihq h₂ (by simp) hsplit hk)
  | alt p q ihp ihq =>
    rw [enters, Bool.or_eq_true]
    exact hacc.imp (fun h => ihp h ha hsplit hk) (fun h => ihq h ha hsplit hk)
  | star => rfl
  | keep slot p ih =>
    rw [Accepts] at hacc
    rw [enters]
    exact ih hacc ha hsplit hk
  | empty =>
    cases List.append_eq_nil_iff.mp (hacc : a ++ w = [])
    contradiction
  | edge | notAfter | ahead | textStart | lineStart | textEnd =>
    cases List.append_eq_nil_iff.mp hacc.1
    contradiction

/-! ## No match touches a piece -/

/-- No match comes from the left and takes a character of the piece. -/
def NoEntry (p : Pattern) (v : Text) : Prop :=
  ∀ ⦃x : Option Char⦄ ⦃a w r b : Text⦄, p.Accepts x (a ++ w) r → a ≠ [] → w ++ r = v ++ b → w = []

/-- No match starts at a character of the piece. -/
def NoStart (p : Pattern) (v : Text) : Prop :=
  ∀ (x : Option Char) (b : Text), ¬ p.Begins x v b

/-- A computed reason for `NoEntry`. -/
def entryFree (p : Pattern) (v : Text) : Bool :=
  !v.isEmpty && !p.enters (fun r => r.length < v.length) v

/-- Whether the assertions in front of the pattern hold between two characters. -/
def leads : Pattern → Char → Char → Bool
  | .edge, b, c => isWord b != isWord c
  | .notAfter cls, b, _ => !cls b
  | .seq p _, b, c => p.leads b c
  | _, _, _ => true

/-- A computed reason why no match starts in the piece, where the character in front of the piece
may be known. -/
def startFreeFrom (p : Pattern) : Option Char → Text → Bool
  | _, [] => true
  | x, c :: v =>
    !(p.meets (fun _ => true) (c :: v) && x.all (fun b => p.leads b c))
      && p.startFreeFrom (some c) v

/-- A computed reason for `NoStart`. -/
def startFree (p : Pattern) (v : Text) : Bool :=
  p.startFreeFrom none v

theorem noEntry_of_entryFree {p : Pattern} {v : Text} (hv : p.entryFree v = true) :
    p.NoEntry v := by
  simp only [entryFree, Bool.and_eq_true, Bool.not_eq_true', List.isEmpty_eq_false_iff] at hv
  intro x a w r b hacc ha hsplit
  by_contra hw
  have hpos : 0 < w.length := List.length_pos_iff.mpr hw
  have hvpos : 0 < v.length := List.length_pos_iff.mpr hv.1
  have henters := enters_of_accepts (k := fun r => r.length < v.length) hacc ha hsplit
    (fun _ => by rw [List.length_drop, decide_eq_true_eq]; omega)
  rw [hv.2] at henters
  cases henters

theorem leads_of_accepts {p : Pattern} {b c : Char} {w r t : Text} (h : p.Accepts (some b) w r)
    (hsplit : w ++ r = c :: t) : p.leads b c = true := by
  induction p generalizing w r with
  | edge =>
    obtain ⟨rfl, hedge⟩ := h
    rw [List.nil_append] at hsplit
    rw [hsplit] at hedge
    exact hedge
  | notAfter cls =>
    have hcls : cls b = false := h.2
    rw [leads, hcls]
    rfl
  | seq p q ihp ihq =>
    obtain ⟨w₁, w₂, rfl, h₁, -⟩ := h
    rw [List.append_assoc] at hsplit
    exact ihp h₁ hsplit
  | _ => rfl

theorem not_begins_of_startFreeFrom {p : Pattern} {x y : Option Char} {v : Text}
    (hv : p.startFreeFrom x v = true) (hx : x = none ∨ x = y) (b : Text) : ¬ p.Begins y v b := by
  induction v generalizing x y with
  | nil => exact not_begins_nil p y b
  | cons c v ih =>
    rw [startFreeFrom, Bool.and_eq_true, Bool.not_eq_true'] at hv
    rw [begins_cons]
    rintro (⟨w, r, hsplit, hacc⟩ | h)
    · have hmeets : p.meets (fun _ => true) (c :: v) = true :=
        meets_of_accepts (k := fun _ => true) (v := c :: v) hacc hsplit.symm (fun _ => rfl)
      have hleads : x.all (fun b => p.leads b c) = true := by
        rcases hx with rfl | rfl
        · rfl
        · cases x with
          | none => rfl
          | some b => exact leads_of_accepts hacc hsplit.symm
      rw [hmeets, hleads] at hv
      cases hv.1
    · exact ih hv.2 (.inr rfl) h

theorem noStart_of_startFree {p : Pattern} {v : Text} (hv : p.startFree v = true) :
    p.NoStart v :=
  fun _ b => not_begins_of_startFreeFrom hv (.inl rfl) b

theorem NoEntry.append {p : Pattern} {v : Text} (h : p.NoEntry v) (v' : Text) :
    p.NoEntry (v ++ v') := by
  intro x a w r b hacc ha hsplit
  rw [List.append_assoc] at hsplit
  exact h hacc ha hsplit

theorem NoStart.append {p : Pattern} {v v' : Text} (h : p.NoStart v) (h' : p.NoStart v') :
    p.NoStart (v ++ v') := by
  intro x b
  rw [begins_append]
  exact not_or.mpr ⟨h _ _, h' _ _⟩

/-- A sequence starts only where its first part does. -/
theorem NoStart.followedBy {p : Pattern} {v : Text} (h : p.NoStart v) (q : Pattern) :
    (p ++ q).NoStart v := by
  rintro x b ⟨a₁, a₂, hsplit, hne, w, r, hrest, hacc⟩
  obtain ⟨w₁, w₂, rfl, hacc₁, -⟩ := accepts_append.mp hacc
  exact h x b ⟨a₁, a₂, hsplit, hne, w₁, w₂ ++ r, by rw [hrest, List.append_assoc], hacc₁⟩

theorem noStart_of_forall {p : Pattern} {v : Text} (h : ∀ c ∈ v, p.NoStart [c]) :
    p.NoStart v := by
  induction v with
  | nil => exact fun x b => not_begins_nil _ x b
  | cons c v ih =>
    have hrest : p.NoStart v := ih (fun d hd => h d (by simp [hd]))
    exact (h c (by simp)).append hrest

/-- **In front of a piece:** a match that starts there and cannot enter the piece is found there
whatever takes the place of the piece. -/
theorem Begins.of_noEntry {p : Pattern} (hp : p.isLocal = true) {x : Option Char} {a u b : Text}
    (h : p.Begins x a (u ++ b)) (hu : p.NoEntry u) {t : Text} (hhead : SameHead (u ++ b) t) :
    p.Begins x a t := by
  obtain ⟨a₁, a₂, rfl, hne, w, r, hsplit, hacc⟩ := h
  refine ⟨a₁, a₂, rfl, hne, ?_⟩
  rcases List.append_eq_append_iff.mp hsplit with ⟨w', rfl, hrest⟩ | ⟨a₃, rfl, rfl⟩
  · cases hu hacc hne hrest.symm
    rw [List.nil_append] at hrest
    rw [List.append_nil, ← hrest] at hacc
    exact ⟨a₂, t, rfl, accepts_congr_right hp hhead hacc⟩
  · exact ⟨w, a₃ ++ t, by simp, accepts_congr_right hp (hhead.append a₃) hacc⟩

/-! ## Between lines -/

/-- Whether the pattern may accept the empty text. -/
def mayBeEmpty : Pattern → Bool
  | .one _ => false
  | .seq p q => p.mayBeEmpty && q.mayBeEmpty
  | .alt p q => p.mayBeEmpty || q.mayBeEmpty
  | .keep _ p => p.mayBeEmpty
  | _ => true

/-- Whether what the pattern accepts may end with a character. -/
def mayEnd : Pattern → Char → Bool
  | .one cls, c | .run _ cls, c => cls c
  | .seq p q, c => q.mayEnd c || (q.mayBeEmpty && p.mayEnd c)
  | .alt p q, c => p.mayEnd c || q.mayEnd c
  | .star _, _ => true
  | .keep _ p, c => p.mayEnd c
  | _, _ => false

theorem mayBeEmpty_of_accepts {p : Pattern} {x : Option Char} {r : Text} (h : p.Accepts x [] r) :
    p.mayBeEmpty = true := by
  induction p generalizing x r with
  | one cls =>
    obtain ⟨c, hc, -⟩ := h
    cases hc
  | seq p q ihp ihq =>
    obtain ⟨w₁, w₂, hsplit, h₁, h₂⟩ := h
    obtain ⟨rfl, rfl⟩ := List.append_eq_nil_iff.mp hsplit.symm
    rw [mayBeEmpty, ihp h₁, ihq h₂, Bool.and_self]
  | alt p q ihp ihq =>
    rw [mayBeEmpty, Bool.or_eq_true]
    exact h.imp ihp ihq
  | keep slot p ih =>
    rw [Accepts] at h
    rw [mayBeEmpty]
    exact ih h
  | _ => rfl

theorem consumes_of_mayBeEmpty {p : Pattern} (hp : p.mayBeEmpty = false) : p.Consumes := by
  intro x r h
  rw [mayBeEmpty_of_accepts h] at hp
  cases hp

theorem mayEnd_of_accepts {p : Pattern} {x : Option Char} {w r : Text} {c : Char}
    (h : p.Accepts x (w ++ [c]) r) : p.mayEnd c = true := by
  induction p generalizing x w r with
  | one cls =>
    obtain ⟨d, hd, hcls⟩ := h
    obtain ⟨rfl, rfl⟩ : w = [] ∧ c = d := by
      cases w with
      | nil => simpa using hd
      | cons e w => simp at hd
    exact hcls
  | run greed cls => exact h c (by simp)
  | seq p q ihp ihq =>
    obtain ⟨w₁, w₂, hsplit, h₁, h₂⟩ := h
    rw [mayEnd, Bool.or_eq_true, Bool.and_eq_true]
    -- the last character is the second part's, unless that part takes nothing
    rcases List.eq_nil_or_concat w₂ with rfl | ⟨w', d, rfl⟩
    · rw [List.append_nil] at hsplit
      subst hsplit
      exact .inr ⟨mayBeEmpty_of_accepts h₂, ihp h₁⟩
    · rw [List.concat_eq_append, ← List.append_assoc] at hsplit
      obtain ⟨-, hcd⟩ := List.append_inj' hsplit rfl
      cases hcd
      rw [List.concat_eq_append] at h₂
      exact .inl (ihq h₂)
  | alt p q ihp ihq =>
    rw [mayEnd, Bool.or_eq_true]
    exact h.imp ihp ihq
  | star => rfl
  | keep slot p ih =>
    rw [Accepts] at h
    rw [mayEnd]
    exact ih h
  | empty => cases (List.append_eq_nil_iff.mp (h : w ++ [c] = [])).2
  | edge | notAfter | ahead | textStart | lineStart | textEnd =>
    cases (List.append_eq_nil_iff.mp h.1).2

/-- The text is empty or ends a line. -/
def EndsLine (a : Text) : Prop :=
  ∀ c, a.getLast? = some c → c = '\n'

/-- Behind complete lines, what stands in front counts as a line feed. -/
theorem EndsLine.sameFront {a : Text} (ha : EndsLine a) :
    SameFront (lastOr none a) (some '\n') := by
  rw [lastOr_none]
  refine .inr ⟨?_, rfl⟩
  cases hlast : a.getLast? with
  | none => rfl
  | some c =>
    rw [ha c hlast]
    rfl

/-- A match that starts in front of a line start ends in front of it when it cannot enter what
stands there. -/
theorem begins_of_endsLine {p : Pattern} (hp : p.isLocal = true) (hend : p.mayEnd '\n' = false)
    {x : Option Char} {a b : Text} (ha : EndsLine a) (b' : Text)
    (henter : ∀ y a' w r, a' ≠ [] → p.Accepts y (a' ++ w) r → w ++ r = b → w = [])
    (h : p.Begins x a b) : p.Begins x a b' := by
  obtain ⟨a₁, a₂, rfl, hne, w, r, hsplit, hacc⟩ := h
  obtain ⟨front, c, hlast⟩ := (List.eq_nil_or_concat a₂).resolve_left hne
  have hc : c = '\n' := ha c (by rw [hlast]; simp)
  rw [List.concat_eq_append, hc] at hlast
  refine ⟨a₁, a₂, rfl, hne, ?_⟩
  have hnoend : ¬ p.Accepts (lastOr x a₁) a₂ r := by
    intro hfull
    rw [hlast] at hfull
    rw [mayEnd_of_accepts hfull] at hend
    cases hend
  rcases List.append_eq_append_iff.mp hsplit with ⟨w', rfl, hrest⟩ | ⟨a₃, rfl, rfl⟩
  · cases henter _ a₂ w' r hne hacc hrest.symm
    rw [List.append_nil] at hacc
    exact absurd hacc hnoend
  · cases a₃ with
    | nil =>
      rw [List.append_nil] at hnoend
      exact absurd hacc hnoend
    | cons d a₃ =>
      refine ⟨w, d :: a₃ ++ b', by simp, accepts_congr_right hp ?_ hacc⟩
      exact rfl

theorem occurs_iff_begins {p : Pattern} (hp : p.Consumes) {x : Option Char} {a : Text} :
    p.Occurs x a ↔ p.Begins x a [] := by
  have happend := occurs_append p x a []
  have hnone : ¬ p.Occurs (lastOr x a) [] := by
    rw [occurs_nil]
    rintro ⟨w, r, hsplit, hacc⟩
    obtain ⟨rfl, rfl⟩ := List.append_eq_nil_iff.mp hsplit.symm
    exact hp _ _ hacc
  rw [List.append_nil] at happend
  rw [happend, or_iff_left hnone]

/-- **Between lines:** when no match enters the piece that stands behind complete lines, the
matches are those of the lines and those that start in the piece or behind it. -/
theorem occurs_insert {p : Pattern} (hp : p.isLocal = true) (hempty : p.mayBeEmpty = false)
    (hend : p.mayEnd '\n' = false) {a v : Text} (ha : EndsLine a) (hv : p.NoEntry v)
    (x : Option Char) (b : Text) :
    p.Occurs x (a ++ (v ++ b)) ↔ p.Occurs x a ∨ p.Occurs (lastOr x a) (v ++ b) := by
  rw [occurs_append, occurs_iff_begins (a := a) (consumes_of_mayBeEmpty hempty)]
  apply or_congr_left
  constructor
  · refine begins_of_endsLine hp hend ha [] ?_
    intro y a' w r hne hacc hsplit
    exact hv hacc hne hsplit
  · refine begins_of_endsLine hp hend ha (v ++ b) ?_
    intro y a' w r hne hacc hsplit
    exact (List.append_eq_nil_iff.mp hsplit).1

/-- What occurs in complete lines occurs in every text that starts with them. -/
theorem Occurs.append_of_endsLine {p : Pattern} (hp : p.isLocal = true)
    (hempty : p.mayBeEmpty = false) (hend : p.mayEnd '\n' = false) {x : Option Char} {a : Text}
    (ha : EndsLine a) (b : Text) (h : p.Occurs x a) : p.Occurs x (a ++ b) := by
  rw [occurs_iff_begins (consumes_of_mayBeEmpty hempty)] at h
  refine (occurs_append p x a b).mpr (.inl (begins_of_endsLine hp hend ha b ?_ h))
  intro y a' w r hne hacc hsplit
  exact (List.append_eq_nil_iff.mp hsplit).1

/-! ## Barriers -/

/-- The pattern covers no character `c`. -/
def avoids : Pattern → Char → Bool
  | .one cls, c | .run _ cls, c => !cls c
  | .seq p q, c | .alt p q, c => p.avoids c && q.avoids c
  | .star p, c | .keep _ p, c => p.avoids c
  | _, _ => true

theorem not_mem_of_accepts {p : Pattern} {c : Char} (hp : p.avoids c = true) {x : Option Char}
    {w r : Text} (h : p.Accepts x w r) : c ∉ w := by
  induction p generalizing x w r with
  | one cls =>
    obtain ⟨d, rfl, hd⟩ := h
    rw [avoids, Bool.not_eq_true'] at hp
    rintro hmem
    rw [List.mem_singleton.mp hmem, hd] at hp
    cases hp
  | run greed cls =>
    rw [avoids, Bool.not_eq_true'] at hp
    intro hmem
    rw [show cls c = true from h c hmem] at hp
    cases hp
  | seq p q ihp ihq =>
    rw [avoids, Bool.and_eq_true] at hp
    obtain ⟨w₁, w₂, rfl, h₁, h₂⟩ := h
    exact fun hmem => (List.mem_append.mp hmem).elim (ihp hp.1 h₁) (ihq hp.2 h₂)
  | alt p q ihp ihq =>
    rw [avoids, Bool.and_eq_true] at hp
    exact h.elim (ihp hp.1) (ihq hp.2)
  | star p ih =>
    -- over the rounds, of which each takes a text of the inner pattern
    have hround : Rounds p.Accepts x w r := h
    clear h
    induction hround with
    | done x r => exact List.not_mem_nil
    | more hne first others ihr =>
      exact fun hmem => (List.mem_append.mp hmem).elim (ih hp first) ihr
  | keep slot p ih => exact ih hp h
  | empty =>
    cases (h : w = [])
    exact List.not_mem_nil
  | edge | notAfter | ahead | textStart | lineStart | textEnd =>
    obtain ⟨rfl, -⟩ := h
    exact List.not_mem_nil

/-- A text that avoids a character and starts a text with it ends in front of it. -/
theorem eq_append_of_not_mem {w r u z : Text} {c : Char} (h : w ++ r = u ++ c :: z) (hc : c ∉ w) :
    ∃ u', u = w ++ u' ∧ r = u' ++ c :: z := by
  rcases List.append_eq_append_iff.mp h with ⟨u', rfl, rfl⟩ | ⟨w', rfl, hw'⟩
  · exact ⟨u', rfl, rfl⟩
  · cases w' with
    | nil => exact ⟨[], by simp, by simpa using hw'.symm⟩
    | cons d w' =>
      rw [List.cons_append, List.cons.injEq] at hw'
      exact absurd (by simp [hw'.1]) hc

section Barrier

variable {p : Pattern} {c : Char} (hlocal : p.isLocal = true) (havoid : p.avoids c = true)

include hlocal havoid

/-- What follows a barrier does not matter in front of it. -/
theorem startsAt_barrier (x : Option Char) (u z z' : Text) (h : p.StartsAt x (u ++ c :: z)) :
    p.StartsAt x (u ++ c :: z') := by
  obtain ⟨w, r, hsplit, hacc⟩ := h
  obtain ⟨u', rfl, rfl⟩ := eq_append_of_not_mem hsplit.symm (not_mem_of_accepts havoid hacc)
  refine ⟨w, u' ++ c :: z', by simp, accepts_congr_right hlocal ?_ hacc⟩
  exact SameHead.append u' rfl

theorem begins_barrier (x : Option Char) (u z z' : Text) (h : p.Begins x u (c :: z)) :
    p.Begins x u (c :: z') := by
  obtain ⟨a₁, a₂, rfl, hne, hstart⟩ := h
  exact ⟨a₁, a₂, rfl, hne, startsAt_barrier hlocal havoid _ _ _ _ hstart⟩

/-- **Matches do not cross a barrier:** they lie in front of it or behind it. -/
theorem occurs_barrier (hempty : p.mayBeEmpty = false) (x : Option Char) (u z : Text) :
    p.Occurs x (u ++ c :: z) ↔ p.Occurs x (u ++ [c]) ∨ p.Occurs (some c) z := by
  have hfront : ∀ x t, ¬ p.StartsAt x (c :: t) := by
    rintro x t ⟨w, r, hsplit, hacc⟩
    obtain ⟨u', hu, -⟩ := eq_append_of_not_mem (u := []) hsplit.symm (not_mem_of_accepts havoid hacc)
    obtain ⟨rfl, -⟩ := List.append_eq_nil_iff.mp hu.symm
    exact consumes_of_mayBeEmpty hempty x r hacc
  have hend : ∀ y, ¬ p.Occurs y [] := by
    intro y hocc
    obtain ⟨w, r, hsplit, hacc⟩ := (occurs_nil p y).mp hocc
    obtain ⟨rfl, rfl⟩ := List.append_eq_nil_iff.mp hsplit.symm
    exact consumes_of_mayBeEmpty hempty y [] hacc
  rw [occurs_append, occurs_append, occurs_cons, occurs_cons]
  constructor
  · rintro (h | h | h)
    · exact .inl (.inl (begins_barrier hlocal havoid _ _ _ _ h))
    · exact absurd h (hfront _ _)
    · exact .inr h
  · rintro ((h | h | h) | h)
    · exact .inl (begins_barrier hlocal havoid _ _ _ _ h)
    · exact absurd h (hfront _ _)
    · exact absurd h (hend _)
    · exact .inr (.inr h)

end Barrier

end ChartLint.Pattern
