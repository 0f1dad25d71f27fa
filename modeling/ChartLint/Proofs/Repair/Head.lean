import ChartLint.Repair
import ChartLint.Proofs.Pattern.Kept
import ChartLint.Proofs.Pattern.Matches
import ChartLint.Proofs.Pattern.Preferred
import ChartLint.Proofs.Pattern.Spelling

/-!
# Heads of properties

The head of a property is its declaration up to the brace: `public Brush X {` of a brush property,
`public string XSerializable {` of its companion. A head is blanks and words in front of one brace,
so that two heads in a text are the same or do not overlap (`IsHead.apart`); hence a search for brush
properties finds every one of them (`exists_mem_findAll`) and gives back its name (`part_of_isHead`).
-/

namespace ChartLint.Repair

open Pattern Text Source Rule

/-! ## The shape of a head -/

/-- A name is a word. -/
def IsName (name : Text) : Prop :=
  name ≠ [] ∧ ∀ c ∈ name, isWord c = true

/-- **A head:** the text up to the brace of a property with a type and a name. -/
def IsHead (type name w : Text) : Prop :=
  Spells [.ink "public".toList, .space true, .ink type, .space true, .ink name, .space false,
    .ink ['{']] w

/-- The head of a declaration, spelled out. -/
theorem isHead_iff {type name w : Text} :
    IsHead type name w ↔ ∃ s₁ s₂ s₃, w = "public".toList ++ s₁ ++ type ++ s₂ ++ name ++ s₃ ++ ['{']
      ∧ ((∀ c ∈ s₁, isBlank c = true) ∧ s₁ ≠ []) ∧ ((∀ c ∈ s₂, isBlank c = true) ∧ s₂ ≠ [])
      ∧ ∀ c ∈ s₃, isBlank c = true := by
  constructor
  · rintro ⟨_, rfl, s₁, _, rfl, h₁, hne₁, _, rfl, s₂, _, rfl, h₂, hne₂, _, rfl, s₃, _, rfl, h₃, -, _,
      rfl, rfl⟩
    exact ⟨s₁, s₂, s₃, by simp, ⟨h₁, hne₁ rfl⟩, ⟨h₂, hne₂ rfl⟩, h₃⟩
  · rintro ⟨s₁, s₂, s₃, rfl, ⟨h₁, hne₁⟩, ⟨h₂, hne₂⟩, h₃⟩
    exact ⟨_, by simp, s₁, _, rfl, h₁, fun _ => hne₁, _, rfl, s₂, _, rfl, h₂, fun _ => hne₂, _, rfl,
      s₃, _, rfl, h₃, nofun, [], rfl, rfl⟩

/-- The types that a head of interest has. -/
def headTypes : List String :=
  ["Brush", "string"]

theorem isName_of_mem_headTypes {type : String} (h : type ∈ headTypes) : IsName type.toList := by
  rcases (by simpa [headTypes] using h : type = "Brush" ∨ type = "string") with rfl | rfl
  · exact ⟨by decide, List.all_eq_true.mp (by decide)⟩
  · exact ⟨by decide, List.all_eq_true.mp (by decide)⟩

theorem isName_brush : IsName "Brush".toList :=
  isName_of_mem_headTypes (by decide)

theorem isName_string : IsName "string".toList :=
  isName_of_mem_headTypes (by decide)

/-- The name of a companion is a name. -/
theorem isName_companion {prop : Text} (h : IsName prop) : IsName (prop ++ Brush.companionEnding) := by
  refine ⟨by simp [h.1], ?_⟩
  intro c hc
  rcases List.mem_append.mp hc with hc | hc
  · exact h.2 c hc
  · exact List.all_eq_true.mp (by decide : Brush.companionEnding.all isWord = true) c hc

theorem isBlank_of_isWord {c : Char} (h : isWord c = true) : isBlank c = false := by
  rw [Bool.eq_false_iff]
  intro hblank
  rw [isWord_of_isBlank hblank] at h
  cases h

/-- A character that stands in front of the brace of a head. -/
def isPlain (c : Char) : Bool :=
  isBlank c || isWord c

section Head

variable {type name w : Text} (htype : IsName type) (hname : IsName name)

include htype hname

/-- A head is blanks and words in front of its brace. -/
theorem IsHead.plain (h : IsHead type name w) :
    ∃ w₀, w = w₀ ++ ['{'] ∧ ∀ c ∈ w₀, isPlain c = true := by
  obtain ⟨s₁, s₂, s₃, rfl, ⟨h₁, -⟩, ⟨h₂, -⟩, h₃⟩ := isHead_iff.mp h
  refine ⟨_, rfl, ?_⟩
  have hpublic : ∀ c ∈ "public".toList, isPlain c = true := List.all_eq_true.mp (by decide)
  have hblank : ∀ {s : Text}, (∀ c ∈ s, isBlank c = true) → ∀ c ∈ s, isPlain c = true := by
    intro s hs c hc
    rw [isPlain, hs c hc, Bool.true_or]
  have hword : ∀ {s : Text}, (∀ c ∈ s, isWord c = true) → ∀ c ∈ s, isPlain c = true := by
    intro s hs c hc
    rw [isPlain, hs c hc, Bool.or_true]
  simp only [List.forall_mem_append]
  exact ⟨⟨⟨⟨⟨hpublic, hblank h₁⟩, hword htype.2⟩, hblank h₂⟩, hword hname.2⟩, hblank h₃⟩

end Head

theorem IsHead.head? {type name w : Text} (h : IsHead type name w) : w.head? = some 'p' := by
  obtain ⟨s₁, s₂, s₃, rfl, -⟩ := isHead_iff.mp h
  simp

theorem IsHead.length_pos {type name w : Text} (h : IsHead type name w) : 0 < w.length := by
  cases w with
  | nil => cases h.head?
  | cons c w => exact Nat.zero_lt_succ _

/-- A text is cut into a front and a longest rest of a class in one way. -/
theorem eq_of_append_eq_append {P : Char → Bool} {t u a b : Text} (h : t ++ a = u ++ b)
    (ha : ∀ c ∈ a, P c = true) (hb : ∀ c ∈ b, P c = true)
    (ht : ∀ c, t.getLast? = some c → P c = false) (hu : ∀ c, u.getLast? = some c → P c = false) :
    t = u ∧ a = b := by
  have hnil : ∀ {t u m : Text}, t = u ++ m → (∀ c ∈ m, P c = true) →
      (∀ c, t.getLast? = some c → P c = false) → m = [] := by
    rintro _ u m rfl hm hlast
    rcases List.eq_nil_or_concat m with rfl | ⟨front, c, rfl⟩
    · rfl
    · have hc : P c = true := hm c (by simp)
      rw [hlast c (by simp)] at hc
      cases hc
  rcases List.append_eq_append_iff.mp h with ⟨m, hm, rfl⟩ | ⟨m, hm, rfl⟩
  · obtain rfl := hnil hm (fun c hc => ha c (by simp [hc])) hu
    simp [hm]
  · obtain rfl := hnil hm (fun c hc => hb c (by simp [hc])) ht
    simp [hm]

theorem getLast?_blank {s : Text} (hs : (∀ c ∈ s, isBlank c = true) ∧ s ≠ []) (t : Text) (c : Char)
    (h : (t ++ s).getLast? = some c) : isBlank c = true := by
  rw [List.getLast?_append_of_ne_nil _ hs.2] at h
  exact hs.1 c (List.mem_of_getLast? h)

theorem getLast?_word {s : Text} (hs : IsName s) (t : Text) (c : Char)
    (h : (t ++ s).getLast? = some c) : isBlank c = false := by
  rw [List.getLast?_append_of_ne_nil _ hs.1] at h
  exact isBlank_of_isWord (hs.2 c (List.mem_of_getLast? h))

/-- A text has one part in front of the first occurrence of a character. -/
theorem eq_of_append_cons {c : Char} {v v' r r' : Text} (h : v ++ c :: r = v' ++ c :: r')
    (hv : c ∉ v) (hv' : c ∉ v') : v = v' ∧ r = r' := by
  obtain ⟨u, rfl, hu⟩ := eq_append_of_not_mem h hv
  cases u with
  | nil => simpa using hu
  | cons d u =>
    rw [List.cons_append, List.cons.injEq] at hu
    exact absurd (by simp [← hu.1]) hv'

/-- Of two cuts of a text the one behind the other cuts the rest. -/
theorem exists_of_append_eq_append {a b c d : Text} (h : a ++ b = c ++ d) (hle : a.length ≤ c.length) :
    ∃ k, c = a ++ k ∧ b = k ++ d := by
  rcases List.append_eq_append_iff.mp h with hk | ⟨k, rfl, rfl⟩
  · exact hk
  · obtain rfl : k = [] := by
      rw [List.length_append] at hle
      exact List.length_eq_zero_iff.mp (by omega)
    exact ⟨[], by simp, by simp⟩

/-- Two texts up to a brace, of which the one starts inside of the other, end with the same brace. -/
theorem same_brace {a b v v' r r' : Text} (h : a ++ (v ++ '{' :: r) = b ++ (v' ++ '{' :: r'))
    (hv : '{' ∉ v) (hv' : '{' ∉ v') (hle : a.length ≤ b.length) (hlt : b.length ≤ a.length + v.length) :
    a ++ v = b ++ v' ∧ r = r' := by
  obtain ⟨m, rfl, hm⟩ := exists_of_append_eq_append h hle
  rw [List.length_append] at hlt
  obtain ⟨k, rfl, hk⟩ := exists_of_append_eq_append hm.symm (by omega)
  obtain ⟨rfl, rfl⟩ := eq_of_append_cons hk.symm (fun hmem => hv (List.mem_append_right _ hmem)) hv'
  exact ⟨by simp, rfl⟩

section Unique

variable {type name w type' name' w' : Text} (htype : IsName type) (hname : IsName name)
  (htype' : IsName type') (hname' : IsName name') (h : IsHead type name w)
  (h' : IsHead type' name' w')

include htype hname htype' hname' h h'

/-- **Heads that end with the same brace** are the same: read from the brace to the left, each run of
blanks and each word ends where the other kind starts. -/
theorem IsHead.unique {g g' : Text} (heq : g ++ w = g' ++ w') :
    g = g' ∧ w = w' ∧ type = type' ∧ name = name' := by
  obtain ⟨s₁, s₂, s₃, rfl, h₁, h₂, h₃⟩ := isHead_iff.mp h
  obtain ⟨s₁', s₂', s₃', rfl, h₁', h₂', h₃'⟩ := isHead_iff.mp h'
  have hink : ∀ {n : Text}, IsName n → ∀ c ∈ n, (!isBlank c) = true := by
    intro n hn c hc
    rw [isBlank_of_isWord (hn.2 c hc)]
    rfl
  have hblank : ∀ {s : Text}, ((∀ c ∈ s, isBlank c = true) ∧ s ≠ []) → ∀ (t : Text) (c : Char),
      (t ++ s).getLast? = some c → (!isBlank c) = false := by
    intro s hs t c hc
    rw [getLast?_blank hs t c hc]
    rfl
  simp only [← List.append_assoc] at heq
  have hbrace := List.append_cancel_right heq
  obtain ⟨e₁, rfl⟩ := eq_of_append_eq_append hbrace h₃ h₃' (getLast?_word hname _)
    (getLast?_word hname' _)
  obtain ⟨e₂, rfl⟩ := eq_of_append_eq_append e₁ (hink hname) (hink hname') (hblank h₂ _) (hblank h₂' _)
  obtain ⟨e₃, rfl⟩ := eq_of_append_eq_append e₂ h₂.1 h₂'.1 (getLast?_word htype _)
    (getLast?_word htype' _)
  obtain ⟨e₄, rfl⟩ := eq_of_append_eq_append e₃ (hink htype) (hink htype') (hblank h₁ _) (hblank h₁' _)
  have hpublic : IsName "public".toList := ⟨by decide, List.all_eq_true.mp (by decide)⟩
  obtain ⟨e₅, rfl⟩ := eq_of_append_eq_append e₄ h₁.1 h₁'.1 (getLast?_word hpublic _)
    (getLast?_word hpublic _)
  exact ⟨List.append_cancel_right e₅, rfl, rfl, rfl⟩

/-- **Heads do not overlap:** of two heads in a text one ends in front of the other, or they are the
same. -/
theorem IsHead.apart {g r g' r' : Text} (heq : g ++ (w ++ r) = g' ++ (w' ++ r')) :
    g.length + w.length ≤ g'.length ∨ g'.length + w'.length ≤ g.length
      ∨ (g = g' ∧ w = w' ∧ r = r' ∧ type = type' ∧ name = name') := by
  obtain ⟨v, hv, hplain⟩ := h.plain htype hname
  obtain ⟨v', hv', hplain'⟩ := h'.plain htype' hname'
  have hbrace : ∀ {u : Text}, (∀ c ∈ u, isPlain c = true) → '{' ∉ u := by
    intro u hu hmem
    cases hu _ hmem
  have hlength : w.length = v.length + 1 := by rw [hv, List.length_append, List.length_singleton]
  have hlength' : w'.length = v'.length + 1 := by rw [hv', List.length_append, List.length_singleton]
  have hsplit : g ++ (v ++ '{' :: r) = g' ++ (v' ++ '{' :: r') := by
    rw [hv, hv'] at heq
    simpa using heq
  by_cases h₁ : g.length + w.length ≤ g'.length
  · exact .inl h₁
  by_cases h₂ : g'.length + w'.length ≤ g.length
  · exact .inr (.inl h₂)
  have hsame : g ++ v = g' ++ v' ∧ r = r' := by
    rcases Nat.le_total g.length g'.length with hle | hle
    · exact same_brace hsplit (hbrace hplain) (hbrace hplain') hle (by omega)
    · obtain ⟨heq', hr⟩ := same_brace hsplit.symm (hbrace hplain') (hbrace hplain) hle (by omega)
      exact ⟨heq'.symm, hr.symm⟩
  have hends : g ++ w = g' ++ w' := by
    rw [hv, hv', ← List.append_assoc, ← List.append_assoc, hsame.1]
  obtain ⟨hg, hw, htypes, hnames⟩ := IsHead.unique htype hname htype' hname' h h' hends
  exact .inr (.inr ⟨hg, hw, hsame.2, htypes, hnames⟩)

end Unique

/-! ## The patterns of heads -/

/-- A pattern with a type and a name that see nothing around them accepts heads. -/
theorem accepts_head {q n : Pattern} {Q N : Text → Prop} (hq : ∀ {x w r}, q.Accepts x w r ↔ Q w)
    (hn : ∀ {x w r}, n.Accepts x w r ↔ N w) {x : Option Char} {w r : Text} :
    ("public" ++ gap ++ q ++ gap ++ n ++ blanks ++ openBrace).Accepts x w r
      ↔ ∃ type name, Q type ∧ N name ∧ IsHead type name w := by
  have hbrace : ∀ {x w r}, openBrace.Accepts x w r ↔ w = ['{'] := by
    intro x w r
    simp [openBrace, accepts_one]
  simp only [accepts_append_assoc]
  simp only [accepts_append, accepts_text, accepts_gap, blanks, accepts_many, hq, hn, hbrace,
    isHead_iff]
  constructor
  · rintro ⟨_, _, rfl, rfl, s₁, _, rfl, h₁, type, _, rfl, htype, s₂, _, rfl, h₂, name, _, rfl, hname,
      s₃, _, rfl, h₃, rfl⟩
    exact ⟨type, name, htype, hname, s₁, s₂, s₃, by simp, h₁, h₂, h₃⟩
  · rintro ⟨type, name, htype, hname, s₁, s₂, s₃, rfl, h₁, h₂, h₃⟩
    exact ⟨_, _, by simp only [List.append_assoc], rfl, s₁, _, rfl, h₁, type, _, rfl, htype, s₂, _,
      rfl, h₂, name, _, rfl, hname, s₃, _, rfl, h₃, rfl⟩

theorem accepts_word {x : Option Char} {w r : Text} : word.Accepts x w r ↔ IsName w :=
  accepts_many1

/-- The pattern for one property covers the heads of that property. -/
theorem accepts_declarationOf {prop : Text} {x : Option Char} {w r : Text} :
    (Brush.declarationOf (literal prop)).Accepts x w r ↔ IsHead "Brush".toList prop w := by
  rw [Brush.declarationOf, accepts_head accepts_text accepts_literal]
  simp

/-- The pattern for a companion covers the heads of the companion. -/
theorem accepts_companion {prop : Text} {x : Option Char} {w r : Text} :
    (Brush.companion prop).Accepts x w r
      ↔ IsHead "string".toList (prop ++ Brush.companionEnding) w := by
  rw [Brush.companion, accepts_head accepts_text accepts_literal]
  simp

/-- The pattern for brush properties covers their heads, under any name. -/
theorem accepts_declaration {x : Option Char} {w r : Text} :
    Brush.declaration.Accepts x w r ↔ ∃ name, IsName name ∧ IsHead "Brush".toList name w := by
  have hname : ∀ {x w r}, (Pattern.keep .name word).Accepts x w r ↔ IsName w := accepts_word
  rw [Brush.declaration, Brush.declarationOf, accepts_head accepts_text hname]
  simp

/-- The head of any property that is a brush or a string. -/
def anyHead : Pattern :=
  "public" ++ gap ++ anyWord headTypes ++ gap ++ word ++ blanks ++ openBrace

/-- The pattern for heads covers those of the two types. -/
theorem accepts_anyHead {x : Option Char} {w r : Text} :
    anyHead.Accepts x w r
      ↔ ∃ type ∈ headTypes, ∃ name, IsName name ∧ IsHead type.toList name w := by
  have htypes : ∀ {x w r}, (anyWord headTypes).Accepts x w r ↔ ∃ type ∈ headTypes, w = type.toList := by
    intro x w r
    rw [anyWord, accepts_anyOf (by decide)]
    simp [accepts_text]
  rw [anyHead, accepts_head htypes accepts_word]
  constructor
  · rintro ⟨_, name, ⟨type, htype, rfl⟩, hname, hhead⟩
    exact ⟨type, htype, name, hname, hhead⟩
  · rintro ⟨type, htype, name, hname, hhead⟩
    exact ⟨_, name, ⟨type, htype, rfl⟩, hname, hhead⟩

/-! ## Searches -/

/-- The pattern accepts heads only. -/
def OfHeads (p : Pattern) : Prop :=
  ∀ {x w r}, p.Accepts x w r → ∃ type name, IsName type ∧ IsName name ∧ IsHead type name w

theorem OfHeads.consumes {p : Pattern} (hp : OfHeads p) : p.Consumes := by
  intro x r hacc
  obtain ⟨type, name, -, -, hhead⟩ := hp hacc
  cases hhead.head?

/-- No head starts inside of another one. -/
theorem OfHeads.separate {p : Pattern} (hp : OfHeads p) : p.Separate := by
  rintro x w₁ w₂ r hacc h₁ h₂ ⟨v, r', hsplit, hacc'⟩
  obtain ⟨type, name, htype, hname, hhead⟩ := hp hacc
  obtain ⟨type', name', htype', hname', hhead'⟩ := hp hacc'
  have hpos₁ : 0 < w₁.length := List.length_pos_iff.mpr h₁
  have hpos₂ : 0 < w₂.length := List.length_pos_iff.mpr h₂
  have hplaces : [] ++ (w₁ ++ w₂ ++ r) = w₁ ++ (v ++ r') := by simp [← hsplit]
  rcases IsHead.apart htype hname htype' hname' hhead hhead' hplaces with h | h | ⟨h, -⟩
  · rw [List.length_append, List.length_nil] at h
    omega
  · rw [List.length_nil] at h
    omega
  · exact h₁ h.symm

/-- **A search finds every head.** -/
theorem exists_mem_findAll {p : Pattern} (hp : OfHeads p) {g u : Text}
    (hu : p.StartsAt (lastOr none g) u) :
    ∃ m ∈ p.findAll (g ++ u), p.matchAt? ⟨g.length, lastOr none g, u⟩ = some m := by
  have hmem := (cuts_findAll hp.consumes (g ++ u)).exists_mem hp.separate rfl hu
  simpa using hmem

theorem ofHeads_declaration : OfHeads Brush.declaration := by
  intro x w r hacc
  obtain ⟨name, hname, hhead⟩ := accepts_declaration.mp hacc
  exact ⟨_, name, isName_brush, hname, hhead⟩

theorem ofHeads_anyHead : OfHeads anyHead := by
  intro x w r hacc
  obtain ⟨type, htype, name, hname, hhead⟩ := accepts_anyHead.mp hacc
  exact ⟨_, name, isName_of_mem_headTypes htype, hname, hhead⟩

/-- **The match of a head** starts and ends with the head and keeps its name. -/
theorem match_of_isHead {g w r name : Text} (hname : IsName name) (h : IsHead "Brush".toList name w)
    {x : Option Char} {m : Match}
    (hm : Brush.declaration.matchAt? ⟨g.length, x, w ++ r⟩ = some m) :
    m.start = g.length ∧ m.stop = g.length + w.length ∧ m.part .name (g ++ (w ++ r)) = name := by
  obtain ⟨s₁, s₂, s₃, rfl, h₁, h₂, h₃⟩ := isHead_iff.mp h
  have hword : ∀ {s t : Text}, IsName s → (s ++ t).head?.any isBlank = false := by
    rintro s t ⟨hne, hs⟩
    obtain ⟨c, s, rfl⟩ := List.exists_cons_of_ne_nil hne
    rw [List.cons_append, List.head?_cons, Option.any_some, isBlank_of_isWord (hs c (by simp))]
  have hblank : ∀ {s t : Text}, ((∀ c ∈ s, isBlank c = true) ∧ s ≠ []) →
      (s ++ t).head?.any isWord = false := by
    rintro s t ⟨hs, hne⟩
    obtain ⟨c, s, rfl⟩ := List.exists_cons_of_ne_nil hne
    rw [List.cons_append, List.head?_cons, Option.any_some, isWord_of_isBlank (hs c (by simp))]
  have hafter : (s₃ ++ '{' :: r).head?.any isWord = false := by
    cases s₃ with
    | nil => rfl
    | cons c s => exact hblank (t := '{' :: r) ⟨h₃, by simp⟩
  have hprefers : Brush.declaration.Prefers
      ⟨g.length, x, "public".toList ++ (s₁ ++ ("Brush".toList ++ (s₂ ++ (name ++ (s₃ ++ '{' :: r)))))⟩
      ("public".toList ++ s₁ ++ "Brush".toList ++ s₂ ++ name ++ s₃ ++ ['{']) r _ :=
    ((((((prefers_literal _ _ _ _).append
      (prefers_many1 h₁.2 h₁.1 (hword isName_brush) _ _)).append
      (prefers_literal _ _ _ _)).append
      (prefers_many1 h₂.2 h₂.1 (hword hname) _ _)).append
      ((prefers_many1 hname.1 hname.2 hafter _ _).keep .name)).append
      (prefers_many h₃ rfl _ _)).append
      (prefers_one rfl _ _ _)
  have hrest : "public".toList ++ s₁ ++ "Brush".toList ++ s₂ ++ name ++ s₃ ++ ['{'] ++ r
      = "public".toList ++ (s₁ ++ ("Brush".toList ++ (s₂ ++ (name ++ (s₃ ++ '{' :: r))))) := by simp
  rw [hrest, hprefers.matchAt?, Option.some.injEq] at hm
  subst hm
  refine ⟨rfl, rfl, ?_⟩
  -- the kept span is the one of the name
  have hfront : g ++ ("public".toList ++ s₁ ++ "Brush".toList ++ s₂ ++ name ++ s₃ ++ ['{'] ++ r)
      = (g ++ ("public".toList ++ s₁ ++ "Brush".toList ++ s₂)) ++ (name ++ (s₃ ++ '{' :: r)) := by simp
  rw [Match.part, Match.span, hfront]
  simp only [List.nil_append, List.cons_append, List.lookup_cons_self, Option.getD_some, within]
  rw [slice, ← List.append_assoc, ← List.length_append, ← List.length_append, List.take_left,
    List.drop_left]

/-! ## Declarations and companions in a text -/

/-- A head of the type and the name stands at the front of the text. -/
def Stands (type name x : Text) : Prop :=
  ∃ w r, x = w ++ r ∧ IsHead type name w

/-- The text has a head of the type and the name. -/
def HasHead (type name t : Text) : Prop :=
  ∃ g x, t = g ++ x ∧ Stands type name x

/-- A companion is seen where a head of it stands. -/
theorem occursIn_companion {prop t : Text} :
    (Brush.companion prop).occursIn t = true
      ↔ HasHead "string".toList (prop ++ Brush.companionEnding) t := by
  rw [occursIn_iff]
  simp only [Occurs, StartsAt, accepts_companion, HasHead, Stands]

/-- The first declaration of a brush property stands between `g` and `x`. -/
structure First (prop g x : Text) : Prop where
  stands : Stands "Brush".toList prop x
  le : ∀ g' x', g' ++ x' = g ++ x → Stands "Brush".toList prop x' → g.length ≤ g'.length

theorem startsAt_declarationOf {prop : Text} {y : Option Char} {x : Text} :
    (Brush.declarationOf (literal prop)).StartsAt y x ↔ Stands "Brush".toList prop x := by
  simp only [StartsAt, accepts_declarationOf, Stands]

/-- **The declaration that the repair works on** is the first one. -/
theorem first_of_declaration? {t prop : Text} {m : Match} (h : declaration? t prop = some m) :
    ∃ g w r, t = g ++ (w ++ r) ∧ IsHead "Brush".toList prop w ∧ First prop g (w ++ r)
      ∧ m.start = g.length ∧ m.stop = g.length + w.length := by
  obtain ⟨g, t', rfl, hno, hm⟩ := findFrom?_eq_some.mp h
  obtain ⟨w, r, rfl, hacc, hstart, hstop⟩ := accepts_of_matchAt? hm
  have hhead := accepts_declarationOf.mp hacc
  refine ⟨g, w, r, rfl, hhead, ⟨⟨w, r, rfl, hhead⟩, ?_⟩, by rw [hstart, Nat.zero_add],
    by rw [hstop, Nat.zero_add]⟩
  intro g' x' hsplit hx'
  by_contra hlt
  obtain ⟨k, rfl, rfl⟩ := exists_of_append_eq_append hsplit (by omega)
  refine hno ⟨g', k, rfl, ?_, ?_⟩
  · rintro rfl
    simp at hlt
  · exact startsAt_declarationOf.mpr hx'

/-- A declaration that stands somewhere is found, there or further up. -/
theorem exists_declaration? {prop g x : Text} (h : Stands "Brush".toList prop x) :
    ∃ m, declaration? (g ++ x) prop = some m := by
  apply Option.isSome_iff_exists.mp
  exact isSome_findFrom?.mpr ⟨g, x, rfl, startsAt_declarationOf.mpr h⟩

/-- A property has one first declaration. -/
theorem First.unique {prop g x g' x' : Text} (h : First prop g x) (h' : First prop g' x')
    (heq : g ++ x = g' ++ x') : g = g' ∧ x = x' := by
  have hle := h.le g' x' heq.symm h'.stands
  have hle' := h'.le g x heq h.stands
  exact List.append_inj heq (by omega)

/-- **The first declaration is the one that the repair goes to.** -/
theorem First.declaration? {prop g w r : Text} (h : First prop g (w ++ r)) (hprop : IsName prop)
    (hhead : IsHead "Brush".toList prop w) :
    ∃ m, declaration? (g ++ (w ++ r)) prop = some m ∧ m.start = g.length
      ∧ m.stop = g.length + w.length := by
  obtain ⟨m, hm⟩ := exists_declaration? (g := g) h.stands
  obtain ⟨g', w', r', heq, hhead', hfirst, hstart, hstop⟩ := first_of_declaration? hm
  obtain ⟨rfl, hx⟩ := h.unique hfirst heq
  have hpos := hhead.length_pos
  have hpos' := hhead'.length_pos
  rcases IsHead.apart isName_brush hprop isName_brush hprop hhead hhead' heq with hle | hle | ⟨-, rfl, -⟩
  · omega
  · omega
  · exact ⟨m, hm, hstart, hstop⟩

end ChartLint.Repair
