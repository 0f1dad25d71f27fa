import ChartLint.Proofs.Repair.Queue

/-!
# Companions are delivered

Every companion that a repair owes is put into the script and converts, whatever other properties are mended
before and after it (`converts_run`). A property waits for its turn (`awaits_foldl`); when it comes, the
companion is put behind the property if its braces are closed (`Awaits.settle`). From then on the core of the
companion stays in one piece (`settled_foldl`): an attribute is put above a line with a brush property, but no
brush property starts in the core, which ends with a line break (`apart_of_line`); a companion is put behind a
closing brace and an initial value, but neither a brace that opens in front of the core nor an initial value
ends in it (`apart_of_spot`).
-/

namespace ChartLint.Repair

open Pattern Text Source Rule Lexing

/-! ## The core of a companion -/

section Core

variable {newline indent prop : Text} (hnewline : IsNewline newline)
  (hindent : ∀ c ∈ indent, isIndent c = true) (hprop : IsName prop)

include hnewline hindent hprop

/-- In front of its brace the head of a companion has blanks and words only. -/
theorem not_mem_head_of_not_isPlain {c : Char} (hc : isPlain c = false) :
    c ∉ companionHead newline indent prop := by
  have hhead : IsHead "string".toList (prop ++ Brush.companionEnding)
      (companionHead newline indent prop ++ ['{']) := isHead_companionHead hnewline hindent
  obtain ⟨w₀, heq, hplain⟩ := hhead.plain isName_string (isName_companion hprop)
  rw [(List.append_inj' heq rfl).1]
  intro hmem
  rw [hplain c hmem] at hc
  cases hc

/-- No brush property starts in the core. -/
theorem le_of_companionCore {q g w r a k : Text} (hq : IsName q) (hhead : IsHead "Brush".toList q w)
    (h : a ++ (companionCore newline indent prop ++ k) = g ++ (w ++ r)) (hle : a.length ≤ g.length) :
    (a ++ companionCore newline indent prop).length ≤ g.length := by
  obtain ⟨m, rfl, hm⟩ := exists_of_append_eq_append h hle
  have hcut : [] ++ (companionCore newline indent prop ++ k) = m ++ (w ++ r) := hm
  rcases hhead.at_companionCore hnewline hindent hprop isName_brush hq
    List.not_mem_nil hcut with ⟨-, htypes, -⟩ | hbound
  · cases htypes
  · rw [List.nil_append] at hbound
    rw [List.length_append, List.length_append]
    omega

/-- **A line in front of a brush property** does not start in the core, which ends with a line break. -/
theorem apart_of_line {q g k l f x : Text} (hq : IsName q) (hf : '\n' ∉ f)
    (hx : Stands "Brush".toList q x)
    (h : l ++ (f ++ x) = g ++ (companionCore newline indent prop ++ k)) :
    l.length ≤ g.length ∨ (g ++ companionCore newline indent prop).length ≤ l.length := by
  by_contra! hin
  obtain ⟨hlt, hgt⟩ := hin
  obtain ⟨w, r, rfl, hhead⟩ := hx
  have hbound := le_of_companionCore hnewline hindent hprop hq hhead (g := l ++ f)
    (by rw [← h, List.append_assoc]) (by rw [List.length_append]; omega)
  -- what the core has behind the start of the line ends with its line break
  have hcut : (g ++ companionCore newline indent prop) ++ k = l ++ (f ++ (w ++ r)) := by
    rw [h, List.append_assoc]
  obtain ⟨n, hn, hrest⟩ := exists_of_append_eq_append hcut.symm hgt.le
  obtain ⟨f', rfl, -⟩ := exists_of_append_eq_append hrest.symm (by
    have hlen := congrArg List.length hn
    simp only [List.length_append] at hlen hbound
    omega)
  obtain ⟨n', hfeed⟩ := hnewline.exists_feed
  have hlast := congrArg List.getLast? hn
  rw [companionCore, hfeed, ← List.append_assoc, ← List.cons_append, ← List.append_assoc, ← List.append_assoc,
    List.getLast?_concat, List.getLast?_append_of_ne_nil _ (by rintro rfl; simp [hn] at hgt)] at hlast
  exact hf (List.mem_append_left f' (List.mem_of_getLast? hlast.symm))

/-- A brace that opens in front of the core is closed in front of it or behind it. -/
theorem closing?_companionCore {m k : Text} {j : Nat}
    (h : closing? (m ++ (companionCore newline indent prop ++ k)) = some j) :
    j < m.length ∨ (m ++ companionCore newline indent prop).length ≤ j := by
  have hcut : m ++ (companionCore newline indent prop ++ k) = (m ++ companionHead newline indent prop)
      ++ '{' :: ((companionAccessors newline indent prop ++ newline) ++ k) := by
    rw [companionCore]
    simp
  have hscan := h
  rw [hcut] at hscan
  rcases closing?_balanced (balanced_companionAccessors hnewline hindent hprop) hscan with hlt | hle
  · -- in the head there is no brace that closes
    left
    by_contra! hge
    obtain ⟨body, z, hsplit, rfl⟩ := closing?_eq_some h
    rw [hcut] at hsplit
    have hends : (body ++ ['}']) ++ z = (m ++ companionHead newline indent prop)
        ++ '{' :: ((companionAccessors newline indent prop ++ newline) ++ k) := by
      rw [hsplit]
      simp
    obtain ⟨u, hu, -⟩ := exists_of_append_eq_append hends (by rwa [List.length_append])
    obtain ⟨n, rfl, hn⟩ := exists_of_append_eq_append (by rw [hu, List.append_assoc]) hge
    refine not_mem_head_of_not_isPlain hnewline hindent hprop (by decide : isPlain '}' = false) ?_
    rw [hn]
    simp
  · right
    simp only [companionCore, List.length_append, List.length_cons] at hle ⊢
    omega

/-- An initial value that starts in front of the core ends in front of it. -/
theorem IsValue.le_of_companionCore {value n k : Text} (hvalue : IsValue value)
    (h : value <+: n ++ (companionCore newline indent prop ++ k)) : value.length ≤ n.length := by
  by_contra! hgt
  obtain ⟨r, hr⟩ := h
  obtain ⟨v₀, rfl, hstop⟩ := hvalue.stop
  obtain ⟨e, he, hrest⟩ := exists_of_append_eq_append hr.symm hgt.le
  obtain ⟨e₀, d, rfl⟩ := (List.eq_nil_or_concat e).resolve_left (by
    rintro rfl
    rw [he, List.append_nil] at hgt
    exact Nat.lt_irrefl _ hgt)
  rw [List.concat_eq_append] at he hrest
  rw [← List.append_assoc] at he
  obtain ⟨rfl, hd⟩ := List.append_inj' he rfl
  obtain rfl : ';' = d := by simpa using hd
  have hbrace : '{' ∉ e₀ ++ [';'] := by
    refine List.not_mem_append (fun hmem => ?_) (by decide)
    cases hstop '{' (List.mem_append_right n hmem)
  -- so it would end in the head, where there is no semicolon
  rw [companionCore, List.append_assoc, List.cons_append] at hrest
  obtain ⟨u, hu, -⟩ := eq_append_of_not_mem hrest.symm hbrace
  refine not_mem_head_of_not_isPlain hnewline hindent hprop (by decide : isPlain ';' = false) ?_
  rw [hu]
  simp

/-- **A companion is not put into the core** of another one: neither a brace that opens in front of the core nor
an initial value ends there. -/
theorem apart_of_spot {q g k a b : Text} (hq : IsName q) (h : a ++ b = g ++ (companionCore newline indent prop ++ k))
    (hspot : companionSpot? (a ++ b) q = some a.length) :
    a.length ≤ g.length ∨ (g ++ companionCore newline indent prop).length ≤ a.length := by
  obtain ⟨-, g₁, w, body, z, value, hsplit, -, ⟨hhead, hclosing, hvalue⟩, hlength⟩ :=
    (companionSpot?_eq_some hq).mp hspot
  rw [h] at hsplit
  by_contra! hin
  obtain ⟨hlt, hgt⟩ := hin
  rw [hlength] at hlt hgt
  have hcore : IsHead "string".toList (prop ++ Brush.companionEnding)
      (companionHead newline indent prop ++ ['{']) := isHead_companionHead hnewline hindent
  -- the property opens in front of the core,
  have hopens : g₁.length < g.length := by
    by_contra! hge
    have hbound := le_of_companionCore hnewline hindent hprop hq hhead hsplit hge
    simp only [List.length_append] at hbound hgt
    omega
  have hends : g₁.length + w.length ≤ g.length := by
    have hcut : g₁ ++ (w ++ (body ++ '}' :: z)) = g ++ ((companionHead newline indent prop ++ ['{'])
        ++ (companionAccessors newline indent prop ++ newline ++ k)) := by
      rw [← hsplit, companionCore]
      simp
    rcases IsHead.apart isName_brush hq isName_string (isName_companion hprop) hhead
      hcore hcut with hle | hle | ⟨rfl, -⟩
    · exact hle
    · omega
    · exact absurd hopens (Nat.lt_irrefl _)
  obtain ⟨m, rfl, hm⟩ : ∃ m, g = g₁ ++ w ++ m ∧ body ++ '}' :: z = m ++ (companionCore newline indent prop ++ k) := by
    have hcut : (g₁ ++ w) ++ (body ++ '}' :: z) = g ++ (companionCore newline indent prop ++ k) := by
      rw [hsplit, List.append_assoc]
    exact exists_of_append_eq_append hcut (by rwa [List.length_append])
  -- closes in front of it as well,
  have hcloses : body.length < m.length := by
    rw [hm] at hclosing
    refine (closing?_companionCore hnewline hindent hprop hclosing).resolve_right ?_
    simp only [List.length_append] at hgt ⊢
    omega
  have hcut : (body ++ ['}']) ++ z = m ++ (companionCore newline indent prop ++ k) := by
    rw [← hm]
    simp
  obtain ⟨n, rfl, hz⟩ := exists_of_append_eq_append hcut (by rwa [List.length_append])
  -- and has its initial value there
  have hfits : value.length ≤ n.length := by
    rcases hvalue with ⟨hvalue, hfront⟩ | ⟨rfl, -⟩
    · rw [hz] at hfront
      exact hvalue.le_of_companionCore hnewline hindent hprop hfront
    · exact Nat.zero_le _
  simp only [List.length_append, List.length_singleton] at hlt
  omega

end Core

/-! ## Delivered companions -/

/-- **The companion of a property is delivered:** the first head of its name is that of a core. -/
def Delivered (newline prop t : Text) : Prop :=
  ∃ indent g k, (∀ c ∈ indent, isIndent c = true) ∧ t = g ++ (companionCore newline indent prop ++ k)
    ∧ NoneBefore "string".toList (prop ++ Brush.companionEnding) t g.length

section Deliver

variable {newline prop : Text} (hnewline : IsNewline newline) (hprop : IsName prop)

/-- An insertion in front of the core or behind it leaves the companion delivered. -/
theorem Delivered.insert {a v b : Text} (h : Delivered newline prop (a ++ b))
    (hbrings : BringsNo "string".toList (prop ++ Brush.companionEnding) a v b)
    (hapart : ∀ {indent g k}, (∀ c ∈ indent, isIndent c = true) →
      a ++ b = g ++ (companionCore newline indent prop ++ k) →
      a.length ≤ g.length ∨ (g ++ companionCore newline indent prop).length ≤ a.length) :
    Delivered newline prop (a ++ (v ++ b)) := by
  obtain ⟨indent, g, k, hindent, hsplit, hnone⟩ := h
  have hnone' := hbrings.noneBefore hnone
  rcases hapart hindent hsplit with hle | hge
  · obtain ⟨m, rfl, rfl⟩ := exists_of_append_eq_append hsplit hle
    refine ⟨indent, a ++ (v ++ m), k, hindent, by simp, ?_⟩
    rw [moved_of_le hle] at hnone'
    have hlength : (a ++ (v ++ m)).length = (a ++ m).length + v.length := by
      simp only [List.length_append]
      omega
    rwa [hlength]
  · have hcut : (g ++ companionCore newline indent prop) ++ k = a ++ b := by rw [hsplit, List.append_assoc]
    obtain ⟨m, rfl, rfl⟩ := exists_of_append_eq_append hcut hge
    refine ⟨indent, g, m ++ (v ++ b), hindent, by simp, ?_⟩
    rwa [moved_of_lt ?_] at hnone'
    simp only [companionCore, List.length_append, List.length_cons]
    omega

/-- **What becomes of a companion that is owed:** it is delivered if the property is closed; otherwise there is
none. -/
def Settled (newline prop : Text) : Bool → Text → Prop
  | true, t => Delivered newline prop t
  | false, t => ¬ HasHead "string".toList (prop ++ Brush.companionEnding) t

/-- Either way an insertion that does not fall into a core changes nothing. -/
theorem Settled.insert {closed : Bool} {a v b : Text} (h : Settled newline prop closed (a ++ b))
    (hbrings : BringsNo "string".toList (prop ++ Brush.companionEnding) a v b)
    (hapart : ∀ {indent g k}, (∀ c ∈ indent, isIndent c = true) →
      a ++ b = g ++ (companionCore newline indent prop ++ k) →
      a.length ≤ g.length ∨ (g ++ companionCore newline indent prop).length ≤ a.length) :
    Settled newline prop closed (a ++ (v ++ b)) := by
  cases closed with
  | true => exact Delivered.insert h hbrings hapart
  | false => exact fun hhas => h (hbrings.hasHead hhas)

include hnewline hprop

theorem Settled.addAttribute {closed : Bool} {code q : Text} (hq : IsName q)
    (h : Settled newline prop closed (mask code)) :
    Settled newline prop closed (mask (addAttribute newline code q)) := by
  rcases mask_addAttribute hnewline hq code with heq | ⟨l, f, x, v, hmask, hl, hf, hfirst, hv, hmask'⟩
  · rwa [heq]
  · rw [hmask']
    rw [hmask] at h
    refine h.insert (bringsNo_line hnewline hv isName_string
      (isName_companion hprop) hl) ?_
    intro indent g k hindent hsplit
    exact apart_of_line hnewline hindent hprop hq hf hfirst.stands hsplit

theorem Settled.addCompanion {closed : Bool} {code q : Text} (hq : IsName q) (hne : q ≠ prop)
    (h : Settled newline prop closed (mask code)) :
    Settled newline prop closed (mask (addCompanion newline code q)) := by
  rcases mask_addCompanion hnewline hq code with
    ⟨-, heq⟩ | ⟨a, c, b, indent, hmask, hc, hindent, hspot, hmask'⟩
  · rwa [heq]
  · rw [hmask']
    rw [hmask] at h hspot
    refine h.insert (bringsNo_companionBlock hnewline hindent hq isName_string
      (isName_companion hprop) hc ?_) ?_
    · rintro ⟨-, hnames⟩
      exact hne (List.append_cancel_right hnames).symm
    · intro indent' g k hindent' hsplit
      exact apart_of_spot hnewline hindent' hprop hq hsplit hspot

/-- **Later properties** leave it as it is. -/
theorem settled_foldl {closed : Bool} {later : List String} {code : Text}
    (hlater : ∀ q ∈ later, IsName q.toList ∧ q.toList ≠ prop)
    (h : Settled newline prop closed (mask code)) :
    Settled newline prop closed (mask (later.foldl (mend newline) code)) := by
  induction later generalizing code with
  | nil => exact h
  | cons q later ih =>
    obtain ⟨⟨hq, hne⟩, hrest⟩ := List.forall_mem_cons.mp hlater
    exact ih hrest ((h.addAttribute hnewline hprop hq).addCompanion hnewline hprop hq hne)

omit hprop in
/-- **The turn of the property itself.** -/
theorem Awaits.settle {place : Text → Nat} {closed : Bool} {code : Text}
    (h : Awaits place prop closed [prop] (mask code)) :
    Settled newline prop closed (mask (Repair.addCompanion newline code prop)) := by
  have hprop : IsName prop := h.queue.isName prop h.mem
  have hsome := h.owed.isSome_companionSpot? hprop
  rcases mask_addCompanion hnewline hprop code with
    ⟨hnone, heq⟩ | ⟨a, c, b, indent, hmask, hc, hindent, hspot, hmask'⟩
  · obtain rfl : false = closed := by rw [← hsome, hnone]; rfl
    rw [heq]
    exact h.owed.lacks
  · obtain rfl : true = closed := by rw [← hsome, hspot]; rfl
    rw [hmask']
    refine ⟨indent, a ++ [c] ++ companionFront newline indent, indent ++ ['}'] ++ b, hindent, ?_, ?_⟩
    · rw [companionBlock_eq_core]
      simp only [List.append_assoc]
    · -- in front of the new head there is none
      intro g x hsplit hx
      rcases stands_companionBlock hnewline hindent hprop isName_string
        (isName_companion hprop) hc hsplit hx with (⟨-, x', hsplit', hx'⟩ | ⟨k, rfl, -⟩) | ⟨rfl, -⟩
      · exact absurd ⟨g, x', hmask.trans hsplit', hx'⟩ h.owed.lacks
      · rw [companionBlock_eq_core]
        simp only [List.length_append]
        omega
      · exact Nat.le_refl _

end Deliver

/-! ## Conversion -/

section Pattern

variable {q : Pattern} {x : Option Char} {w r : Text}

/-- Blanks may be missing. -/
theorem accepts_blanks_append (h : q.Accepts x w r) : (blanks ++ q).Accepts x w r :=
  accepts_append.mpr ⟨[], w, rfl, by simp [blanks, accepts_many], h⟩

theorem accepts_space_append (h : q.Accepts (some ' ') w r) : (blanks ++ q).Accepts x (' ' :: w) r :=
  accepts_append.mpr ⟨[' '], w, rfl, List.all_eq_true.mp (by decide), h⟩

theorem accepts_literal_append {t : Text} (h : q.Accepts (lastOr x t) w r) :
    (literal t ++ q).Accepts x (t ++ w) r :=
  accepts_append.mpr ⟨t, w, rfl, accepts_literal.mpr rfl, h⟩

end Pattern

/-- The accessor that reads the property converts it to a string. -/
theorem occursIn_writesBrush (g prop r : Text) :
    (Brush.writesBrush prop).occursIn (g ++ (companionRead prop ++ r)) = true := by
  have hread : companionRead prop = " return ".toList
      ++ (("Serialize.BrushToString".toList ++ ("(".toList ++ (prop ++ ")".toList))) ++ "; ".toList) := by
    have hfront : " return Serialize.BrushToString(".toList
        = " return ".toList ++ ("Serialize.BrushToString".toList ++ "(".toList) := by decide
    have hback : "); ".toList = ")".toList ++ "; ".toList := by decide
    unfold companionRead
    simp only [hfront, hback, List.append_assoc]
  have hsplit : g ++ (companionRead prop ++ r) = (g ++ " return ".toList)
      ++ (("Serialize.BrushToString".toList ++ ("(".toList ++ (prop ++ ")".toList)))
        ++ ("; ".toList ++ r)) := by
    simp only [hread, List.append_assoc]
  refine occursIn_iff.mpr ⟨_, _, hsplit, _, _, rfl, ?_⟩
  unfold Brush.writesBrush
  simp only [accepts_append_assoc]
  apply accepts_literal_append
  apply accepts_blanks_append
  apply accepts_literal_append
  apply accepts_blanks_append
  apply accepts_literal_append
  apply accepts_blanks_append
  exact accepts_text.mpr rfl

/-- The accessor that writes the property converts it from a string. -/
theorem occursIn_readsBrush {prop : Text} (hprop : IsName prop) (g r : Text) :
    (Brush.readsBrush prop).occursIn (g ++ (companionWrite prop ++ r)) = true := by
  have hwrite : companionWrite prop = [' '] ++ ((prop ++ (' ' :: ("=".toList ++ (' ' ::
      ("Serialize.StringToBrush".toList ++ ("(".toList ++ ("value".toList ++ ")".toList))))))) ++ "; ".toList) := by
    have hback : " = Serialize.StringToBrush(value); ".toList = ' ' :: ("=".toList ++ (' ' ::
        ("Serialize.StringToBrush".toList ++ ("(".toList ++ ("value".toList ++ (")".toList ++ "; ".toList)))))) := by
      decide
    have hfront : " ".toList = [' '] := by decide
    unfold companionWrite
    simp only [hfront, hback, List.append_assoc, List.cons_append]
  have hsplit : g ++ (companionWrite prop ++ r) = (g ++ [' ']) ++ ((prop ++ (' ' :: ("=".toList ++ (' ' ::
      ("Serialize.StringToBrush".toList ++ ("(".toList ++ ("value".toList ++ ")".toList)))))))
        ++ ("; ".toList ++ r)) := by
    simp only [hwrite, List.append_assoc]
  refine occursIn_iff.mpr ⟨_, _, hsplit, _, _, rfl, ?_⟩
  unfold Brush.readsBrush
  simp only [accepts_append_assoc]
  refine accepts_append.mpr ⟨[], _, rfl, ⟨rfl, ?_⟩, ?_⟩
  · -- the name starts a word
    obtain ⟨c, t, rfl⟩ := List.exists_cons_of_ne_nil hprop.1
    have hc : isWord c = true := hprop.2 c List.mem_cons_self
    have hspace : isWord ' ' = false := by decide
    simp [hc, hspace]
  apply accepts_literal_append
  apply accepts_space_append
  apply accepts_literal_append
  apply accepts_space_append
  apply accepts_literal_append
  apply accepts_blanks_append
  apply accepts_literal_append
  apply accepts_blanks_append
  apply accepts_literal_append
  apply accepts_blanks_append
  exact accepts_text.mpr rfl

/-- The search for a companion finds the first head of its name. -/
theorem find?_companion {prop g w r : Text} (hprop : IsName prop)
    (hhead : IsHead "string".toList (prop ++ Brush.companionEnding) w)
    (hnone : NoneBefore "string".toList (prop ++ Brush.companionEnding) (g ++ (w ++ r)) g.length) :
    ∃ m, (Brush.companion prop).find? (g ++ (w ++ r)) = some m ∧ m.stop = g.length + w.length := by
  have hname := isName_companion hprop
  obtain ⟨m, hm⟩ : ∃ m, (Brush.companion prop).find? (g ++ (w ++ r)) = some m :=
    Option.isSome_iff_exists.mp (occursIn_companion.mpr ⟨g, w ++ r, rfl, w, r, rfl, hhead⟩)
  refine ⟨m, hm, ?_⟩
  obtain ⟨g', t', heq, hno, hmatch⟩ := findFrom?_eq_some.mp hm
  obtain ⟨w', r', rfl, hacc, -, hstop⟩ := accepts_of_matchAt? hmatch
  have hhead' := accepts_companion.mp hacc
  have hle := hnone g' (w' ++ r') heq ⟨w', r', rfl, hhead'⟩
  -- nothing begins in front of the match
  have hge : g'.length ≤ g.length := by
    by_contra! hlt
    obtain ⟨k, rfl, hk⟩ := exists_of_append_eq_append heq hle
    refine hno ⟨g, k, rfl, ?_, w, r, hk.symm, accepts_companion.mpr hhead⟩
    rintro rfl
    simp at hlt
  rcases IsHead.apart isName_string hname isName_string hname hhead hhead' heq with hapart | hapart | ⟨rfl, rfl, -⟩
  · have hpos := hhead.length_pos
    omega
  · have hpos := hhead'.length_pos
    omega
  · rw [hstop, Nat.zero_add]

/-- A slice that ends behind a text starts with it. -/
theorem exists_slice {y x z : Text} {stop : Nat} (h : (y ++ x).length ≤ stop) :
    ∃ z', slice (y ++ (x ++ z)) y.length stop = x ++ z' := by
  refine ⟨z.take (stop - (y ++ x).length), ?_⟩
  rw [slice, ← List.append_assoc, List.take_append, List.take_of_length_le h, List.append_assoc,
    List.drop_left]

/-- What stands between the braces of a delivered companion starts with its accessors. -/
theorem Delivered.companionBody? {newline prop t : Text} (hnewline : IsNewline newline) (hprop : IsName prop)
    (h : Delivered newline prop t) : ∃ indent z,
      Brush.companionBody? t prop = some ('{' :: (companionAccessors newline indent prop ++ z)) := by
  obtain ⟨indent, g, k, hindent, rfl, hnone⟩ := h
  have hcore : IsHead "string".toList (prop ++ Brush.companionEnding)
      (companionHead newline indent prop ++ ['{']) := isHead_companionHead hnewline hindent
  have hhead : g ++ (companionCore newline indent prop ++ k)
      = g ++ ((companionHead newline indent prop ++ ['{'])
        ++ ((companionAccessors newline indent prop ++ newline) ++ k)) := by
    rw [companionCore]
    simp
  have hbrace : g ++ (companionCore newline indent prop ++ k) = (g ++ companionHead newline indent prop)
      ++ '{' :: ((companionAccessors newline indent prop ++ newline) ++ k) := by
    rw [hhead]
    simp
  obtain ⟨m, hm, hstop⟩ := find?_companion hprop hcore (by rw [← hhead]; exact hnone)
  rw [← hhead] at hm
  have hopener : m.stop - 1 = (g ++ companionHead newline indent prop).length := by
    rw [hstop]
    simp only [List.length_append, List.length_singleton]
    omega
  -- the brace of the companion is closed behind the accessors, or never
  have hclose : ((g ++ companionHead newline indent prop)
        ++ '{' :: companionAccessors newline indent prop).length
      ≤ matchingBrace (g ++ (companionCore newline indent prop ++ k)) (m.stop - 1) + 1 := by
    rw [hopener, hbrace, matchingBrace_append]
    cases hclosing : closing? ((companionAccessors newline indent prop ++ newline) ++ k) with
    | none =>
      simp only [List.length_append, List.length_cons]
      omega
    | some j =>
      have hscan := (balanced_companionAccessors hnewline hindent hprop) 1 (Int.le_refl 1) 0 k
      rw [closing?, hscan] at hclosing
      have hle := closingFrom?_le hclosing
      simp only [List.length_append, List.length_cons] at hle ⊢
      omega
  obtain ⟨z, hz⟩ := exists_slice (z := newline ++ k) hclose
  have hsplit : (g ++ companionHead newline indent prop)
      ++ ('{' :: companionAccessors newline indent prop ++ (newline ++ k))
      = g ++ (companionCore newline indent prop ++ k) := by
    rw [hbrace]
    simp
  rw [hsplit, ← hopener] at hz
  refine ⟨indent, z, ?_⟩
  rw [Brush.companionBody?, hm, Option.map_some, hz, List.cons_append]

/-- **A delivered companion converts** in both directions. -/
theorem Delivered.converts {newline prop t : Text} (hnewline : IsNewline newline) (hprop : IsName prop)
    (h : Delivered newline prop t) : Brush.converts t prop = true := by
  obtain ⟨indent, z, hbody⟩ := h.companionBody? hnewline hprop
  have hwrites := occursIn_writesBrush ('{' :: (companionAccessor newline indent "    get " ++ ['{'])) prop
    ('}' :: (companionAccessor newline indent "    set " ++ '{' :: (companionWrite prop ++ '}' :: z)))
  have hreads := occursIn_readsBrush hprop ('{' :: (companionAccessor newline indent "    get "
    ++ '{' :: (companionRead prop ++ '}' :: (companionAccessor newline indent "    set " ++ ['{'])))) ('}' :: z)
  rw [Brush.converts, hbody, companionAccessors]
  simp only [List.append_assoc, List.cons_append, List.nil_append] at hwrites hreads ⊢
  rw [hwrites, hreads]
  rfl

/-! ## What the rule reports -/

/-- The issue says that the property has no companion. -/
def SaysMissing (prop : Text) (i : Issue) : Prop :=
  let name := String.ofList prop
  let twin := String.ofList (prop ++ Brush.companionEnding)
  i.subject = some name
    ∧ i.message = s!"Brush property \"{name}\" has no \"{twin}\" string "
      ++ "companion; its value will not be serialized"

instance (prop : Text) : DecidablePred (SaysMissing prop) :=
  fun _ => inferInstanceAs (Decidable (_ ∧ _))

/-- No other finding of the rule says that. -/
theorem autoFixable_of_saysMissing {masked prop : Text} {m : Match} {i : Issue}
    (hf : i.toFinding ∈ Brush.reportsOn masked m) (h : SaysMissing prop i) :
    i.autoFixable = true ∧ m.part .name masked = prop
      ∧ (Brush.companion prop).occursIn masked = false := by
  obtain ⟨f, check⟩ := i
  obtain ⟨hsubject, hmessage⟩ := h
  have hpart : m.part .name masked = prop := by
    have hnames := hsubject.symm.trans (subject_reportsOn hf)
    simpa using (congrArg String.toList (Option.some.inj hnames)).symm
  unfold Brush.reportsOn at hf
  simp only [hpart] at hf
  split at hf
  · cases hf
  · rcases List.mem_append.mp hf with hf | hf
    · -- the report on the attribute goes on differently behind the name
      rw [Option.mem_toList, Brush.attributeFinding?] at hf
      split at hf
      · cases hf
      · obtain rfl := Option.some.inj hf
        have htext := congrArg String.toList hmessage
        simp only [Finding.error, Finding.about, Finding.mendable, String.toList_append, toString,
          List.append_assoc] at htext
        cases List.append_cancel_left (List.append_cancel_left htext)
    · rw [Option.mem_toList, Brush.companionFinding?] at hf
      split at hf
      · next hlacks =>
        obtain rfl := Option.some.inj hf
        exact ⟨rfl, hpart, by simpa using hlacks⟩
      · split at hf
        · cases hf
        · -- the report on a companion that does not convert starts with another word
          obtain rfl := Option.some.inj hf
          have htext := congrArg String.toList hmessage
          simp only [Finding.error, Finding.about, String.toList_append, toString,
            List.append_assoc] at htext
          cases htext

/-! ## The whole run -/

section Run

variable {code : Text} {issues : List Issue} (hissues : Rule.brush.check (ofCode code) = .ok issues)

include hissues

/-- A property of which the rule says that it has no companion is declared, has none and is to be mended. -/
theorem mem_subjects_of_saysMissing {i : Issue} {prop : Text} (hi : i ∈ issues) (h : SaysMissing prop i) :
    prop ∈ (subjects issues).map String.toList ∧ (∃ m, declaration? (mask code) prop = some m)
      ∧ (Brush.companion prop).occursIn (mask code) = false := by
  obtain ⟨m, prop', g, x, hmask, hname, hstands, hstart, hpart, hfm⟩ := exists_stands_of_mem hissues hi
  obtain ⟨hfix, hpart', hcompanion⟩ := autoFixable_of_saysMissing hfm h
  obtain rfl : prop' = prop := hpart.symm.trans hpart'
  obtain ⟨hsuffix, hlacks⟩ := lacks_of_mem_reportsOn hstart hpart hfm hfix
  rw [← hmask] at hcompanion
  refine ⟨(mem_subjects hissues).mpr ⟨⟨hname, hsuffix⟩, g, x, hmask, hstands, hlacks.imp_right And.left⟩, ?_,
    hcompanion⟩
  rw [hmask]
  exact exists_declaration? hstands

/-- **A run settles every companion that is owed:** the property waits while earlier ones are mended, gets its
companion, and keeps it while later ones are mended. -/
theorem settled_run {prop : Text} {m : Match} (hmem : prop ∈ (subjects issues).map String.toList)
    (hcompanion : (Brush.companion prop).occursIn (mask code) = false)
    (hm : declaration? (mask code) prop = some m) :
    Settled (lineBreak code) prop (decide (matchingBrace (mask code) (m.stop - 1) < code.length))
      (mask (run issues code)) := by
  have hnewline := isNewline_lineBreak code
  obtain ⟨s, hs, rfl⟩ := List.mem_map.mp hmem
  obtain ⟨earlier, later, hsplit⟩ := List.append_of_mem hs
  have hnames : ∀ q ∈ subjects issues, IsName q.toList := fun q hq =>
    ((mem_subjects hissues).mp (List.mem_map_of_mem hq)).1.1
  have hnodup := nodup_subjects issues
  rw [hsplit] at hnodup hnames
  obtain ⟨-, hrest, hapart⟩ := List.nodup_append.mp hnodup
  have hnot : s.toList ∉ earlier.map String.toList := by
    intro hin
    obtain ⟨q, hq, heq⟩ := List.mem_map.mp hin
    exact hapart q hq s List.mem_cons_self (String.toList_inj.mp heq)
  have hlater : ∀ q ∈ later, IsName q.toList ∧ q.toList ≠ s.toList := by
    intro q hq
    refine ⟨hnames q (by simp [hq]), fun heq => ?_⟩
    rw [String.toList_inj.mp heq] at hq
    exact (List.nodup_cons.mp hrest).1 hq
  have hwhole : (subjects issues).map String.toList
      = earlier.map String.toList ++ s.toList :: later.map String.toList := by
    rw [hsplit]
    simp
  -- the earlier properties, the attribute of this one, its companion, the later properties
  obtain ⟨place, hstart⟩ := awaits_start hissues hwhole hcompanion hm
  obtain ⟨place', hturn⟩ := awaits_foldl hnewline hnot hstart
  obtain ⟨place'', hattribute⟩ := hturn.addAttribute hnewline
  rw [run_eq, hsplit, List.foldl_append, List.foldl_cons]
  exact settled_foldl hnewline (hnames s (by simp)) hlater (hattribute.settle hnewline)

end Run

/-- **Every companion that is owed is delivered and converts:** if the rule says of a property that it has no
companion, then after the repair there is one that converts in both directions, provided the braces of the
first declaration of the property are closed; if they are not, there is none. What other properties the repair
mends, before or after, makes no difference. -/
theorem converts_run (code : Text) :
    ∃ issues, Rule.brush.check (ofCode code) = .ok issues
      ∧ ∀ i ∈ issues, ∀ prop, SaysMissing prop i →
        ∃ m, declaration? (mask code) prop = some m
          ∧ (matchingBrace (mask code) (m.stop - 1) < code.length →
            Brush.converts (mask (run issues code)) prop = true)
          ∧ (code.length ≤ matchingBrace (mask code) (m.stop - 1) →
            (Brush.companion prop).occursIn (mask (run issues code)) = false) := by
  obtain ⟨issues, hissues⟩ : ∃ issues, Rule.brush.check (ofCode code) = .ok issues :=
    ⟨_, Brush.check_eq (ofCode code)⟩
  refine ⟨issues, hissues, ?_⟩
  intro i hi prop hsays
  obtain ⟨hmem, ⟨m, hm⟩, hcompanion⟩ := mem_subjects_of_saysMissing hissues hi hsays
  have hprop : IsName prop := ((mem_subjects hissues).mp hmem).1.1
  have hsettled := settled_run hissues hmem hcompanion hm
  refine ⟨m, hm, fun hclosed => ?_, fun hopen => ?_⟩
  · rw [decide_eq_true hclosed] at hsettled
    exact Delivered.converts (isNewline_lineBreak code) hprop hsettled
  · rw [decide_eq_false (Nat.not_lt.mpr hopen)] at hsettled
    exact Bool.eq_false_iff.mpr (occursIn_companion.not.mpr hsettled)

/-- A property that is closed, another one nested in it on the same line, and a third one that is never closed. -/
def nestedBrushes : Text :=
  "public Brush A \x7b public Brush B \x7b get; set; \x7d\n\x7d public Brush C \x7b".toList

theorem converts_run_nestedBrushes :
    ∃ issues, Rule.brush.check (ofCode nestedBrushes) = .ok issues
      ∧ (∀ prop ∈ ["A", "B", "C"], ∃ i ∈ issues, SaysMissing prop.toList i)
      ∧ (∀ prop ∈ ["A", "B"], Brush.converts (mask (run issues nestedBrushes)) prop.toList = true)
      ∧ (Brush.companion "C".toList).occursIn (mask (run issues nestedBrushes)) = false := by
  obtain ⟨issues, hissues, hrun⟩ := converts_run nestedBrushes
  have hsays : ∀ prop ∈ ["A", "B", "C"], ∃ i ∈ issues, SaysMissing prop.toList i := by
    obtain rfl := Except.ok.inj ((Brush.check_eq (ofCode nestedBrushes)).symm.trans hissues)
    decide +kernel
  have hclosed : ∀ prop ∈ ["A", "B"], (declaration? (mask nestedBrushes) prop.toList).all
      (fun m => matchingBrace (mask nestedBrushes) (m.stop - 1) < nestedBrushes.length) = true := by
    decide +kernel
  have hopen : (declaration? (mask nestedBrushes) "C".toList).all
      (fun m => nestedBrushes.length ≤ matchingBrace (mask nestedBrushes) (m.stop - 1)) = true := by
    decide +kernel
  refine ⟨issues, hissues, hsays, ?_, ?_⟩
  · intro prop hprop
    obtain ⟨i, hi, hmissing⟩ := hsays prop (List.mem_append_left ["C"] hprop)
    obtain ⟨m, hm, hconverts, -⟩ := hrun i hi prop.toList hmissing
    have hends := hclosed prop hprop
    rw [hm] at hends
    exact hconverts (of_decide_eq_true hends)
  · obtain ⟨i, hi, hmissing⟩ := hsays "C" (by simp)
    obtain ⟨m, hm, -, hnone⟩ := hrun i hi "C".toList hmissing
    rw [hm] at hopen
    exact hnone (of_decide_eq_true hopen)

end ChartLint.Repair
