import ChartLint.Proofs.Steps
import ChartLint.Proofs.Text.Lines
import ChartLint.Service.Target
import Mathlib.Data.List.TakeWhile

/-!
# Where a target leads

A path is a list of steps between slashes. What `settle` leaves of it has no step in place and no
step up (`dotless_settle`), so that settling it again changes nothing (`settle_settle`). The first
step is the root, and no step up goes past it. Every target that can be read therefore leads to a
path that starts at the root of the service and has neither kind of step (`fromRoot_route`).

Two results say which part of a target counts. What stands behind a question mark or a number sign
is of no account (`read_append`), and a path without anything to read in it leads to itself
(`Plain.destination`).
-/

namespace ChartLint.Service.Target

open Text

/-! ## Steps -/

/-- A step in place or a step up. -/
def isDotStep (step : Text) : Bool :=
  step = ['.'] || step = ['.', '.']

/-- No step of a path is a step in place or a step up. -/
def Dotless (path : Text) : Prop :=
  ∀ step ∈ split '/' path, isDotStep step = false

instance (path : Text) : Decidable (Dotless path) :=
  inferInstanceAs (Decidable (∀ step ∈ split '/' path, isDotStep step = false))

/-- **One step** stays, goes up, or goes on by a step that is neither in place nor up. -/
theorem takeStep_cases (taken : List Text) (step : Text) :
    takeStep taken step = taken ∨ takeStep taken step = taken.tail
      ∨ isDotStep step = false ∧ takeStep taken step = step :: taken := by
  unfold takeStep
  split
  · exact .inl rfl
  · next hplace =>
    split
    · split
      · exact .inl rfl
      · exact .inr (.inl rfl)
    · next hup => exact .inr (.inr ⟨by simp [isDotStep, hplace, hup], rfl⟩)

/-- What holds of the steps of a path, those in place and up apart, holds of the steps taken. -/
theorem forall_mem_foldl_takeStep {P : Text → Prop} {steps taken : List Text}
    (htaken : ∀ step ∈ taken, P step)
    (hsteps : ∀ step ∈ steps, isDotStep step = false → P step) :
    ∀ step ∈ steps.foldl takeStep taken, P step := by
  induction steps generalizing taken with
  | nil => exact htaken
  | cons step steps ih =>
    refine ih ?_ (fun s hs => hsteps s (List.mem_cons_of_mem _ hs))
    intro s hs
    rcases takeStep_cases taken step with h | h | ⟨hdot, h⟩ <;> rw [h] at hs
    · exact htaken s hs
    · exact htaken s (List.mem_of_mem_tail hs)
    · rcases List.mem_cons.mp hs with rfl | hs
      · exact hsteps s List.mem_cons_self hdot
      · exact htaken s hs

/-- Steps that are neither in place nor up are all taken. -/
theorem foldl_takeStep_of_forall {steps : List Text} (h : ∀ step ∈ steps, isDotStep step = false)
    (taken : List Text) : steps.foldl takeStep taken = steps.reverse ++ taken := by
  induction steps generalizing taken with
  | nil => rfl
  | cons step steps ih =>
    have hstep : takeStep taken step = step :: taken := by
      have hdot := h step List.mem_cons_self
      simp only [isDotStep, Bool.or_eq_false_iff, decide_eq_false_iff_not] at hdot
      rw [takeStep, if_neg hdot.1, if_neg hdot.2]
    rw [List.foldl_cons, hstep, ih (fun s hs => h s (List.mem_cons_of_mem _ hs)),
      List.reverse_cons, List.append_assoc, List.singleton_append]

/-- The root stays under all steps: it is not passed by a step up. -/
theorem getLast?_foldl_takeStep {steps taken : List Text} (h : taken.getLast? = some []) :
    (steps.foldl takeStep taken).getLast? = some [] := by
  induction steps generalizing taken with
  | nil => exact h
  | cons step steps ih =>
    refine ih ?_
    obtain ⟨first, others, rfl⟩ := List.exists_cons_of_ne_nil (l := taken) (by rintro rfl; cases h)
    unfold takeStep
    split
    · exact h
    · split
      · split
        · exact h
        · next hroot =>
          -- the root alone was the case before this one, so there is a step above it
          cases others with
          | nil => simp_all
          | cons second others => simpa using h
      · simpa using h

/-- A path without steps in place and up is settled. -/
theorem settle_of_dotless {path : Text} (h : Dotless path) : settle path = path := by
  rw [settle, foldl_takeStep_of_forall h, List.append_nil, List.reverse_reverse, intercalate_split]

/-- **Settling leaves no step in place and no step up.** -/
theorem dotless_settle (path : Text) : Dotless (settle path) := by
  have htaken : ∀ step ∈ (split '/' path).foldl takeStep [],
      '/' ∉ step ∧ isDotStep step = false :=
    forall_mem_foldl_takeStep (by simp)
      (fun step hstep hdot => ⟨not_mem_of_mem_split hstep, hdot⟩)
  intro step hstep
  rw [settle] at hstep
  by_cases hnil : (split '/' path).foldl takeStep [] = []
  · rw [hnil] at hstep
    obtain rfl : step = [] := by simpa [split] using hstep
    rfl
  · rw [split_intercalate (by simpa using hnil)
      (fun s hs => (htaken s (List.mem_reverse.mp hs)).1)] at hstep
    exact (htaken step (List.mem_reverse.mp hstep)).2

/-- Settling is done once. -/
theorem settle_settle (path : Text) : settle (settle path) = settle path :=
  settle_of_dotless (dotless_settle path)

/-- A path from the root stays one, or nothing but the root is left of it. -/
theorem settle_root (path : Text) :
    settle ('/' :: path) = [] ∨ ∃ rest, settle ('/' :: path) = '/' :: rest := by
  have hroot : ((split '/' ('/' :: path)).foldl takeStep []).getLast? = some [] := by
    rw [split, if_pos rfl, List.foldl_cons]
    exact getLast?_foldl_takeStep rfl
  rw [settle]
  rw [← List.head?_reverse] at hroot
  obtain ⟨others, hothers⟩ := List.head?_eq_some_iff.mp hroot
  rw [hothers]
  cases others with
  | nil => exact .inl rfl
  | cons second others => exact .inr ⟨_, rfl⟩

/-! ## From the root -/

/-- A path from the root of the service without steps in place and steps up. -/
structure FromRoot (path : Text) : Prop where
  root : ∃ rest, path = '/' :: rest
  dotless : Dotless path

/-- A path from the root is settled to one; the root stands for the empty path. -/
theorem fromRoot_settle {path : Text} (hroot : path = [] ∨ ∃ rest, path = '/' :: rest) :
    FromRoot (if (settle path).isEmpty then ['/'] else settle path) := by
  have hsettled : settle path = [] ∨ ∃ rest, settle path = '/' :: rest := by
    rcases hroot with rfl | ⟨rest, rfl⟩
    · exact .inl rfl
    · exact settle_root rest
  rcases hsettled with h | ⟨rest, h⟩
  · rw [if_pos (by simp [h])]
    refine ⟨⟨[], rfl⟩, ?_⟩
    simp [Dotless, split, isDotStep]
  · rw [if_neg (by simp [h])]
    exact ⟨⟨rest, h⟩, dotless_settle path⟩

/-- An authority ends at a slash, at what ends a path, or with the target. -/
theorem head?_cutAuthority {t : Text} (h : (cutAuthority t).1 ≠ []) {c : Char}
    (hc : (cutAuthority t).2.head? = some c) : c = '/' ∨ endsPath c = true := by
  unfold cutAuthority at h hc
  split at hc
  · next rest =>
    have hstop := List.head?_dropWhile_not (fun c => !(c == '/' || endsPath c)) rest
    rw [hc] at hstop
    exact or_iff_not_imp_left.mpr (by simpa using hstop)
  · next hslashes =>
    split at h
    · next rest => exact absurd rfl (hslashes rest)
    · exact absurd rfl h

/-- Behind an authority a path starts with a slash, unless there is none. -/
theorem root_path_ofText {t : Text} (h : (ofText t).authority ≠ []) :
    (ofText t).path = [] ∨ ∃ rest, (ofText t).path = '/' :: rest := by
  have hhead : ∀ c, (cutAuthority (cutScheme t).2).2.head? = some c → c = '/' ∨ endsPath c = true :=
    fun c => head?_cutAuthority h
  show (cutAuthority (cutScheme t).2).2.takeWhile (fun c => !endsPath c) = [] ∨
    ∃ rest, (cutAuthority (cutScheme t).2).2.takeWhile (fun c => !endsPath c) = '/' :: rest
  cases hbehind : (cutAuthority (cutScheme t).2).2 with
  | nil => exact .inl rfl
  | cons c rest =>
    rcases hhead c (by rw [hbehind]; rfl) with rfl | hends
    · exact .inr ⟨_, rfl⟩
    · exact .inl (by simp [hends])

/-- A target that names a host has an authority. -/
theorem authority_ne_nil_of_isComplete {t : Target} (h : t.isComplete = true) :
    t.authority ≠ [] := by
  intro hnil
  simp [isComplete, host, address, hnil] at h

/-- **Every target that can be read leads to a path from the root** without steps in place and
steps up. -/
theorem fromRoot_route {s : String} {t : Target} (h : read s = .ok t) : FromRoot t.route := by
  obtain rfl : ofText s.toList = t := by
    simp only [read] at h
    split at h
    · cases h
    · split at h
      · cases h
      · obtain ⟨_, -, hread⟩ := exists_of_bind_eq_ok h
        exact Except.ok.inj hread
  rw [route]
  by_cases hcomplete : (ofText s.toList).isComplete = true
  · have hqualified : (ofText s.toList).isQualified = true := by
      have := (Bool.and_eq_true_iff.mp hcomplete).1
      simp [isQualified, this]
    simp only [hcomplete, hqualified, if_true]
    exact fromRoot_settle (root_path_ofText (authority_ne_nil_of_isComplete hcomplete))
  · rw [if_neg hcomplete]
    exact fromRoot_settle (.inr ⟨_, rfl⟩)

/-! ## Queries -/

section Query

variable {c : Char}

theorem takeWhile_append_stop (cls : Char → Bool) (hc : cls c = false) (t q : Text) :
    (t ++ c :: q).takeWhile cls = t.takeWhile cls := by
  induction t with
  | nil => simp [hc]
  | cons x t ih =>
    rw [List.cons_append, List.takeWhile_cons, List.takeWhile_cons, ih]

theorem dropWhile_append_stop (cls : Char → Bool) (hc : cls c = false) (t q : Text) :
    (t ++ c :: q).dropWhile cls = t.dropWhile cls ++ c :: q := by
  induction t with
  | nil => simp [hc]
  | cons x t ih =>
    rw [List.cons_append, List.dropWhile_cons, List.dropWhile_cons, ih]
    split <;> rfl

/-- What ends a path is no part of a scheme, and not the colon behind it. -/
theorem cutScheme_append (hc : endsPath c = true) (t q : Text) :
    cutScheme (t ++ c :: q) = ((cutScheme t).1, (cutScheme t).2 ++ c :: q) := by
  have hscheme : isSchemeChar c = false := by
    rcases (by simpa [endsPath] using hc : c = '?' ∨ c = '#') with rfl | rfl <;> decide
  have hcolon : c ≠ ':' := by
    rintro rfl
    cases hc
  simp only [cutScheme, takeWhile_append_stop _ hscheme, dropWhile_append_stop _ hscheme]
  cases t.dropWhile isSchemeChar with
  | nil =>
    rw [List.nil_append]
    split
    · next h => exact absurd (List.cons.inj h).1 hcolon
    · rfl
  | cons d others =>
    by_cases hd : d = ':'
    · subst hd
      simp only [List.cons_append]
      split <;> rfl
    · simp [hd]

/-- Without two slashes in front there is no authority. -/
theorem cutAuthority_of_ne {d e : Char} (h : ¬(d = '/' ∧ e = '/')) (rest : Text) :
    cutAuthority (d :: e :: rest) = ([], d :: e :: rest) := by
  unfold cutAuthority
  split
  · next heq =>
    obtain ⟨hd, heq⟩ := List.cons.inj heq
    exact absurd ⟨hd, (List.cons.inj heq).1⟩ h
  · rfl

/-- What ends a path ends an authority as well. -/
theorem cutAuthority_append (hc : endsPath c = true) (t q : Text) :
    cutAuthority (t ++ c :: q) = ((cutAuthority t).1, (cutAuthority t).2 ++ c :: q) := by
  have hslash : c ≠ '/' := by
    rintro rfl
    cases hc
  have hinside : (!(c == '/' || endsPath c)) = false := by simp [hc]
  match t with
  | [] => simp [cutAuthority, hslash]
  | [d] => simp [cutAuthority, hslash]
  | d :: e :: rest =>
    by_cases h : d = '/' ∧ e = '/'
    · obtain ⟨rfl, rfl⟩ := h
      simp only [List.cons_append, cutAuthority]
      rw [takeWhile_append_stop (fun c => !(c == '/' || endsPath c)) hinside,
        dropWhile_append_stop (fun c => !(c == '/' || endsPath c)) hinside]
    · rw [List.cons_append, List.cons_append, cutAuthority_of_ne h, cutAuthority_of_ne h]
      rfl

/-- **A query and a fragment are of no account.** -/
theorem ofText_append (hc : endsPath c = true) (t q : Text) : ofText (t ++ c :: q) = ofText t := by
  have hpath : (!endsPath c) = false := by simp [hc]
  simp only [ofText, cutScheme_append hc, cutAuthority_append hc]
  rw [takeWhile_append_stop (fun c => !endsPath c) hpath]

/-- A target is read with a query or a fragment as it is without, if it is short enough and the rest
can be printed. -/
theorem read_append (hc : endsPath c = true) {t q : Text}
    (hshort : (t ++ c :: q).length ≤ lengthLimit) (hprinted : ∀ x ∈ q, isControl x = false) :
    read (String.ofList (t ++ c :: q)) = read (String.ofList t) := by
  have ht : t.length ≤ lengthLimit := by
    rw [List.length_append] at hshort
    omega
  have hcontrol : isControl c = false := by
    rcases (by simpa [endsPath] using hc : c = '?' ∨ c = '#') with rfl | rfl <;> decide
  have hrest : (c :: q).findIdx? isControl = none := by
    rw [List.findIdx?_eq_none_iff]
    exact List.forall_mem_cons.mpr ⟨hcontrol, hprinted⟩
  simp only [read, String.toList_ofList, if_neg (Nat.not_lt.mpr hshort), if_neg (Nat.not_lt.mpr ht),
    ofText_append hc, List.findIdx?_append, hrest, Option.map_none, Option.or_none]
  cases hfind : t.findIdx? isControl with
  | none => rfl
  | some position =>
    obtain ⟨hlt, -⟩ := List.findIdx?_eq_some_iff_getElem.mp hfind
    simp only [List.getD_eq_getElem?_getD, List.getElem?_append_left hlt]

end Query

/-! ## Plain paths -/

/-- A path that is its own reading: it starts at the root of the service, and nothing in it stands
for anything else. -/
structure Plain (path : Text) : Prop where
  root : ∃ rest, path = '/' :: rest ∧ rest.head? ≠ some '/'
  short : path.length ≤ lengthLimit
  printed : ∀ c ∈ path, isControl c = false
  unended : ∀ c ∈ path, endsPath c = false
  unescaped : '%' ∉ path
  dotless : Dotless path

namespace Plain

variable {path : Text}

/-- A plain path has neither scheme nor authority. -/
theorem ofText (h : Plain path) : ofText path = ⟨[], [], path⟩ := by
  obtain ⟨rest, rfl, hrest⟩ := h.root
  have hscheme : cutScheme ('/' :: rest) = ([], '/' :: rest) := rfl
  have hauthority : cutAuthority ('/' :: rest) = ([], '/' :: rest) := by
    cases rest with
    | nil => rfl
    | cons d others => exact cutAuthority_of_ne (fun hd => hrest (by rw [List.head?_cons, hd.2])) _
  have hpath : ('/' :: rest).takeWhile (fun c => !endsPath c) = '/' :: rest :=
    List.takeWhile_eq_self_iff.mpr (fun c hc => by rw [h.unended c hc]; rfl)
  simp only [Target.ofText, hscheme, hauthority, hpath]

/-- A plain path can be read. -/
theorem read (h : Plain path) : read (String.ofList path) = .ok ⟨[], [], path⟩ := by
  have hfind : path.findIdx? isControl = none := List.findIdx?_eq_none_iff.mpr h.printed
  obtain ⟨rest, hpath, hrest⟩ := h.root
  have hcheck : Target.check ⟨[], [], path⟩ = .ok () := by
    cases rest with
    | nil => rw [hpath]; rfl
    | cons d others =>
      have hd : d ≠ '/' := fun hd => hrest (by rw [hd]; rfl)
      simp [check, port, address, hostLength, isQualified, hasUser, host, hpath, Ne.symm hd]
  simp only [Target.read, String.toList_ofList, if_neg (Nat.not_lt.mpr h.short), hfind, h.ofText,
    hcheck]
  rfl

/-- **A plain path leads to itself.** -/
theorem destination (h : Plain path) : destination ⟨[], [], path⟩ = path := by
  obtain ⟨rest, hpath, hrest⟩ := h.root
  have hroute : route ⟨[], [], path⟩ = path := by
    have htrim : Text.trimStartBy (· == '/') path = rest := by
      rw [hpath, Text.trimStartBy, List.dropWhile_cons_of_pos (by decide)]
      cases rest with
      | nil => rfl
      | cons d others =>
        refine List.dropWhile_cons_of_neg ?_
        rintro hd
        exact hrest (by rw [List.head?_cons, eq_of_beq hd])
    show (if (settle ('/' :: Text.trimStartBy (· == '/') path)).isEmpty then ['/']
      else settle ('/' :: Text.trimStartBy (· == '/') path)) = path
    rw [htrim, ← hpath, settle_of_dotless h.dotless, if_neg (by simp [hpath])]
  rw [Target.destination, hroute, unescape_of_not_mem path h.unescaped,
    unescape_of_not_mem path h.unescaped]

/-- Slashes behind a path add empty steps. -/
theorem split_append_slashes (path : Text) (n : Nat) :
    split '/' (path ++ List.replicate n '/') = split '/' path ++ List.replicate n [] := by
  induction n with
  | zero => simp
  | succ n ih =>
    rw [List.replicate_succ', ← List.append_assoc, split_append_sep, ih, List.replicate_succ',
      List.append_assoc]
    rfl

/-- A plain path stays plain with slashes behind it, the root apart: two slashes would stand for an
authority. -/
theorem slashes (h : Plain path) (hroot : path ≠ ['/']) {n : Nat}
    (hshort : path.length + n ≤ lengthLimit) : Plain (path ++ List.replicate n '/') where
  root := by
    obtain ⟨rest, rfl, hrest⟩ := h.root
    obtain ⟨c, others, rfl⟩ := List.exists_cons_of_ne_nil (l := rest) (by rintro rfl; exact hroot rfl)
    exact ⟨c :: others ++ List.replicate n '/', rfl, hrest⟩
  short := by rwa [List.length_append, List.length_replicate]
  printed := List.forall_mem_append.mpr
    ⟨h.printed, fun c hc => by rw [(List.mem_replicate.mp hc).2]; decide⟩
  unended := List.forall_mem_append.mpr
    ⟨h.unended, fun c hc => by rw [(List.mem_replicate.mp hc).2]; decide⟩
  unescaped := by
    rw [List.mem_append, not_or]
    exact ⟨h.unescaped, fun hmem => absurd (List.mem_replicate.mp hmem).2 (by decide)⟩
  dotless := by
    rw [Dotless, split_append_slashes]
    exact List.forall_mem_append.mpr
      ⟨h.dotless, fun step hstep => by rw [(List.mem_replicate.mp hstep).2]; rfl⟩

end Plain

end ChartLint.Service.Target
