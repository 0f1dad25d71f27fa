import ChartLint.Proofs.Repair.Demand
import ChartLint.Proofs.Repair.Trace
import Mathlib.Order.Lattice.Nat

/-!
# Properties that wait for the repair

While earlier properties are mended, a later one waits. An attribute that is put above an earlier property
could break the head of a later one in two, were it not for the order of the list: of each property that
waits a declaration stands in the text, and they stand in the order in which the properties are mended
(`Queue`). So the line of an attribute comes to stand in front of everything that still waits, and a property
reaches its turn with its first declaration as it was and without a companion (`awaits_foldl`).
-/

namespace ChartLint.Repair

open Pattern Text Source Rule Lexing

/-! ## The invariant -/

/-- **The properties that wait:** a declaration of each stands at its place, and the places are in the order
of the properties. -/
structure Queue (place : Text → Nat) (props : List Text) (t : Text) : Prop where
  isName : ∀ p ∈ props, IsName p
  ordered : props.Pairwise (fun p q => place p ≤ place q)
  stands : ∀ p ∈ props, ∃ g w r, t = g ++ (w ++ r) ∧ g.length = place p ∧ IsHead "Brush".toList p w

/-- **A companion that is owed:** there is none in the text, and the first declaration of the property stands
at `place`; its braces are closed, or they are not. -/
structure Owed (prop : Text) (closed : Bool) (place : Nat) (t : Text) : Prop where
  lacks : ¬ HasHead "string".toList (prop ++ Brush.companionEnding) t
  first : ∃ g w r, t = g ++ (w ++ r) ∧ g.length = place ∧ IsHead "Brush".toList prop w
    ∧ (closing? r).isSome = closed
  none : NoneBefore "Brush".toList prop t place

/-- A property waits for its companion, in line with others. -/
structure Awaits (place : Text → Nat) (prop : Text) (closed : Bool) (props : List Text) (t : Text) :
    Prop where
  mem : prop ∈ props
  queue : Queue place props t
  owed : Owed prop closed (place prop) t

/-- A companion that is owed has a spot exactly if the property is closed. -/
theorem Owed.isSome_companionSpot? {prop t : Text} {closed : Bool} {place : Nat} (hprop : IsName prop)
    (h : Owed prop closed place t) : (companionSpot? t prop).isSome = closed := by
  obtain ⟨g, w, r, rfl, rfl, hhead, rfl⟩ := h.first
  have hfirst : First prop g (w ++ r) := first_iff_noneBefore.mpr ⟨⟨w, r, rfl, hhead⟩, h.none⟩
  obtain ⟨m, hm, -, hstop⟩ := hfirst.declaration? hprop hhead
  unfold companionSpot?
  rw [if_neg (occursIn_companion.not.mpr h.lacks), hm]
  simp only [hstop, ← Nat.not_lt, matchingBrace_lt hprop hhead]
  cases (closing? r).isSome <;> simp

/-! ## One insertion -/

section Insert

variable {a v b : Text}

/-- A head moves along with the text, if it does not run over the place of the insertion. -/
theorem IsHead.move {type : String} {name g w r : Text} (htype : type ∈ headTypes) (hname : IsName name)
    (hhead : IsHead type.toList name w) (hv : Balanced v)
    (hclear : Clear (a ++ b) a.length ∨ a.length ≤ g.length) (h : a ++ b = g ++ (w ++ r)) :
    ∃ g' r', a ++ (v ++ b) = g' ++ (w ++ r') ∧ g'.length = moved a v g.length
      ∧ (closing? r').isSome = (closing? r).isSome := by
  rcases Nat.lt_or_ge g.length a.length with hlt | hge
  · have hle := (hclear.resolve_right (by omega)) htype hname hhead h hlt
    have hends : (g ++ w) ++ r = a ++ b := by rw [h, List.append_assoc]
    obtain ⟨u, rfl, rfl⟩ := exists_of_append_eq_append hends (by rwa [List.length_append])
    refine ⟨g, u ++ (v ++ b), by simp, (moved_of_lt hlt).symm, ?_⟩
    rcases closing?_insert hv u b with ⟨k, -, hnew, hold⟩ | ⟨found, hnew, hold⟩
    · rw [hnew, hold]
    · rw [hnew, hold, Option.isSome_map, Option.isSome_map]
  · obtain ⟨k, rfl, rfl⟩ := exists_of_append_eq_append h hge
    refine ⟨a ++ (v ++ k), r, by simp, ?_, rfl⟩
    rw [moved_of_le hge]
    simp only [List.length_append]
    omega

/-- **One insertion** moves the places along with the text. -/
theorem Awaits.insert {place : Text → Nat} {prop : Text} {closed : Bool} {props : List Text}
    (h : Awaits place prop closed props (a ++ b)) (hv : Balanced v)
    (hclear : Clear (a ++ b) a.length ∨ ∀ p ∈ props, a.length ≤ place p)
    (hbrush : BringsNo "Brush".toList prop a v b)
    (hstring : BringsNo "string".toList (prop ++ Brush.companionEnding) a v b) :
    Awaits (fun p => moved a v (place p)) prop closed props (a ++ (v ++ b)) := by
  have hmove : ∀ {p g w r}, p ∈ props → a ++ b = g ++ (w ++ r) → g.length = place p →
      IsHead "Brush".toList p w → ∃ g' r', a ++ (v ++ b) = g' ++ (w ++ r')
        ∧ g'.length = moved a v (place p) ∧ (closing? r').isSome = (closing? r).isSome := by
    intro p g w r hp hsplit hplace hhead
    rw [← hplace]
    refine hhead.move (by decide : "Brush" ∈ headTypes) (h.queue.isName p hp) hv ?_ hsplit
    exact hclear.imp_right fun hle => hplace ▸ hle p hp
  refine ⟨h.mem, ⟨h.queue.isName, ?_, ?_⟩, ⟨?_, ?_, ?_⟩⟩
  · exact h.queue.ordered.imp (moved_mono a v)
  · intro p hp
    obtain ⟨g, w, r, hsplit, hplace, hhead⟩ := h.queue.stands p hp
    obtain ⟨g', r', hsplit', hplace', -⟩ := hmove hp hsplit hplace hhead
    exact ⟨g', w, r', hsplit', hplace', hhead⟩
  · exact fun hhas => h.owed.lacks (hstring.hasHead hhas)
  · obtain ⟨g, w, r, hsplit, hplace, hhead, hclosing⟩ := h.owed.first
    obtain ⟨g', r', hsplit', hplace', hclosing'⟩ := hmove h.mem hsplit hplace hhead
    exact ⟨g', w, r', hsplit', hplace', hhead, hclosing'.trans hclosing⟩
  · exact hbrush.noneBefore h.owed.none

end Insert

/-! ## The turn of an earlier property -/

section Mend

variable {newline : Text} (hnewline : IsNewline newline) {place : Text → Nat} {prop p : Text}
  {closed : Bool} {props : List Text} {code : Text}

include hnewline

/-- **An attribute** comes to stand in front of all properties that wait. -/
theorem Awaits.addAttribute (h : Awaits place prop closed (p :: props) (mask code)) :
    ∃ place', Awaits place' prop closed (p :: props) (mask (addAttribute newline code p)) := by
  have hp : IsName p := h.queue.isName p List.mem_cons_self
  have hprop : IsName prop := h.queue.isName prop h.mem
  rcases mask_addAttribute hnewline hp code with
    heq | ⟨l, f, x, v, hmask, hl, hf, hfirst, hv, hmask'⟩
  · rw [heq]
    exact ⟨place, h⟩
  · have hhere : l.length ≤ place p := by
      obtain ⟨g, w, r, hsplit, hplace, hhead⟩ := h.queue.stands p List.mem_cons_self
      have hle := hfirst.le g (w ++ r) (by rw [← hsplit, hmask, List.append_assoc]) ⟨w, r, rfl, hhead⟩
      rw [List.length_append] at hle
      omega
    have hall : ∀ q ∈ p :: props, l.length ≤ place q := by
      intro q hq
      rcases List.mem_cons.mp hq with rfl | hq
      · exact hhere
      · exact hhere.trans (List.rel_of_pairwise_cons h.queue.ordered hq)
    rw [hmask']
    rw [hmask] at h
    exact ⟨_, h.insert (hv.balanced hnewline) (.inr hall)
      (bringsNo_line hnewline hv isName_brush hprop hl)
      (bringsNo_line hnewline hv isName_string (isName_companion hprop) hl)⟩

/-- **A companion** of another property breaks no head. -/
theorem Awaits.addCompanion (h : Awaits place prop closed (p :: props) (mask code)) (hne : p ≠ prop) :
    ∃ place', Awaits place' prop closed props (mask (addCompanion newline code p)) := by
  have hp : IsName p := h.queue.isName p List.mem_cons_self
  have hprop : IsName prop := h.queue.isName prop h.mem
  have hrest : ∀ {place : Text → Nat} {t : Text}, Awaits place prop closed (p :: props) t →
      Awaits place prop closed props t := by
    intro place t ht
    refine ⟨(List.mem_cons.mp ht.mem).resolve_left hne.symm, ?_, ht.owed⟩
    exact ⟨fun q hq => ht.queue.isName q (List.mem_cons_of_mem p hq), ht.queue.ordered.of_cons,
      fun q hq => ht.queue.stands q (List.mem_cons_of_mem p hq)⟩
  rcases mask_addCompanion hnewline hp code with
    ⟨-, heq⟩ | ⟨a, c, b, indent, hmask, hc, hindent, -, hmask'⟩
  · rw [heq]
    exact ⟨place, hrest h⟩
  · have hjoint := joint_companionBlock (a := a) (b := b) hnewline hindent hp hc
    rw [hmask']
    rw [hmask] at h
    refine ⟨_, hrest (h.insert hjoint.balanced (.inl hjoint.clear) ?_ ?_)⟩
    · refine bringsNo_companionBlock hnewline hindent hp isName_brush hprop hc ?_
      rintro ⟨htypes, -⟩
      cases htypes
    · refine bringsNo_companionBlock hnewline hindent hp isName_string
        (isName_companion hprop) hc ?_
      rintro ⟨-, hnames⟩
      exact hne (List.append_cancel_right hnames).symm

/-- **A property reaches its turn** with its first declaration as it was and without a companion. -/
theorem awaits_foldl {earlier : List String} (hnot : prop ∉ earlier.map String.toList)
    (h : Awaits place prop closed (earlier.map String.toList ++ props) (mask code)) :
    ∃ place', Awaits place' prop closed props (mask (earlier.foldl (mend newline) code)) := by
  induction earlier generalizing code place with
  | nil => exact ⟨place, h⟩
  | cons p earlier ih =>
    rw [List.map_cons, List.mem_cons, not_or] at hnot
    obtain ⟨place₁, h₁⟩ := h.addAttribute hnewline
    obtain ⟨place₂, h₂⟩ := h₁.addCompanion hnewline (Ne.symm hnot.1)
    exact ih hnot.2 h₂

end Mend

/-! ## The start -/

section Start

variable {code : Text} {issues : List Issue} (hissues : Rule.brush.check (ofCode code) = .ok issues)

include hissues

/-- The properties to mend stand in line: the place of each is that of its first declaration which lacks
something. -/
theorem queue_start : ∃ place, Queue place ((subjects issues).map String.toList) (mask code)
    ∧ ∀ p g x, mask code = g ++ x → First p g x →
      ¬ HasHead "string".toList (p ++ Brush.companionEnding) (mask code) → place p = g.length := by
  -- the offsets of the declarations of a property that lack something
  let lacking (p : Text) : Set Nat :=
    {n | ∃ g x, mask code = g ++ x ∧ g.length = n ∧ Stands "Brush".toList p x ∧ Lacks p g x}
  have hmem : ∀ p ∈ (subjects issues).map String.toList, sInf (lacking p) ∈ lacking p := by
    intro p hp
    obtain ⟨-, g, x, hmask, hstands, hlacks⟩ := (mem_subjects hissues).mp hp
    exact Nat.sInf_mem ⟨g.length, g, x, hmask, rfl, hstands, hlacks⟩
  refine ⟨fun p => sInf (lacking p), ⟨fun p hp => ((mem_subjects hissues).mp hp).1.1, ?_, ?_⟩, ?_⟩
  · refine (ordered_lacks hissues).imp_of_mem ?_
    rintro p q - hq ⟨g, x, hmask, hstands, hlacks, hle⟩
    obtain ⟨g', x', hmask', hplace, hstands', hlacks'⟩ := hmem q hq
    have hfront : sInf (lacking p) ≤ g.length := Nat.sInf_le ⟨g, x, hmask, rfl, hstands, hlacks⟩
    rw [← hplace]
    exact hfront.trans (hle hmask' hstands' hlacks')
  · intro p hp
    obtain ⟨g, _, hmask, hplace, ⟨w, r, rfl, hhead⟩, -⟩ := hmem p hp
    exact ⟨g, w, r, hmask, hplace, hhead⟩
  · intro p g x hmask hfirst hnone
    rw [hmask] at hnone
    have hin : g.length ∈ lacking p := ⟨g, x, hmask, rfl, hfirst.stands, .inr hnone⟩
    obtain ⟨g', x', hmask', hplace, hstands', -⟩ := Nat.sInf_mem ⟨_, hin⟩
    have hle := hfirst.le g' x' (hmask'.symm.trans hmask) hstands'
    have hge := Nat.sInf_le hin
    show sInf (lacking p) = g.length
    omega

/-- At the start every property without a companion waits for it. -/
theorem awaits_start {prop : Text} {m : Match} {earlier later : List Text}
    (hsplit : (subjects issues).map String.toList = earlier ++ prop :: later)
    (hcompanion : (Brush.companion prop).occursIn (mask code) = false)
    (hm : declaration? (mask code) prop = some m) :
    ∃ place, Awaits place prop (decide (matchingBrace (mask code) (m.stop - 1) < code.length))
      (earlier ++ [prop]) (mask code) := by
  obtain ⟨place, hqueue, hplace⟩ := queue_start hissues
  have hlacks : ¬ HasHead "string".toList (prop ++ Brush.companionEnding) (mask code) := by
    rw [← occursIn_companion, hcompanion]
    exact Bool.false_ne_true
  have hsub : (earlier ++ [prop]).Sublist ((subjects issues).map String.toList) := by
    rw [hsplit]
    simp
  have hprop : IsName prop := hqueue.isName prop (hsub.subset (by simp))
  obtain ⟨g, w, r, hmask, hhead, hfirst, -, hstop⟩ := first_of_declaration? hm
  refine ⟨place, by simp, ⟨fun p hp => hqueue.isName p (hsub.subset hp), hqueue.ordered.sublist hsub,
    fun p hp => hqueue.stands p (hsub.subset hp)⟩, hlacks, ?_, ?_⟩
  · refine ⟨g, w, r, hmask, (hplace prop g _ hmask hfirst hlacks).symm, hhead, ?_⟩
    rw [← length_mask code, hstop, hmask, Bool.eq_iff_iff, decide_eq_true_iff, matchingBrace_lt hprop hhead]
  · rw [hplace prop g _ hmask hfirst hlacks, hmask]
    exact (first_iff_noneBefore.mp hfirst).2

end Start

end ChartLint.Repair
