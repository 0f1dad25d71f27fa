import ChartLint.Proofs.Lexing.Splice
import ChartLint.Proofs.Lexing.Segmentation

/-!
# The comments and literals of a changed script

A script that is cut outside of its comments and literals has the tokens of both parts (`tokens_append`), so the
laws of splices hold of tokens as they hold of the mask. Text that opens nothing adds no token where it is put
outside (`tokens_insertAt`), makes one longer where it is put between the lines of a token
(`length_tokens_insertAt_inside`), and takes with it the tokens of what it replaces (`tokens_splice`).
-/

namespace ChartLint.Lexing

open Text

/-! ## The regions of a part -/

/-- The regions of `a` when `b` follows it. -/
def regionsIn : State → Text → Text → List Region
  | _, [], _ => []
  | s, c :: a, b => (step s c (a ++ b)).1 :: regionsIn (step s c (a ++ b)).2 a b

@[simp]
theorem length_regionsIn (s : State) (a b : Text) : (regionsIn s a b).length = a.length := by
  induction a generalizing s with
  | nil => rfl
  | cons c a ih => simp [regionsIn, ih]

theorem regionsFrom_append (s : State) (a b : Text) :
    regionsFrom s (a ++ b) = regionsIn s a b ++ regionsFrom (stateAfter s a b) b := by
  induction a generalizing s with
  | nil => rfl
  | cons c a ih => simp only [List.cons_append, regionsFrom_cons, regionsIn, stateAfter, ih]

theorem regionsIn_append (s : State) (a a' b : Text) :
    regionsIn s (a ++ a') b
      = regionsIn s a (a' ++ b) ++ regionsIn (stateAfter s a (a' ++ b)) a' b := by
  induction a generalizing s with
  | nil => rfl
  | cons c a ih => simp only [List.cons_append, regionsIn, stateAfter, ih, List.append_assoc]

theorem regionsIn_of_alike {b b' : Text} (h : Alike b b') (s : State) (a : Text) :
    regionsIn s a b = regionsIn s a b' := by
  induction a generalizing s with
  | nil => rfl
  | cons c a ih => simp only [regionsIn, step_append_of_alike h s c a, ih]

/-- A front whose last character is settled has the same regions whatever follows it. -/
theorem regionsIn_settled {a : Text} (ha : ∀ x, a.getLast? = some x → isSettled x = true)
    (s : State) (b b' : Text) : regionsIn s a b = regionsIn s a b' := by
  rcases List.eq_nil_or_concat a with rfl | ⟨front, x, rfl⟩
  · rfl
  · rw [List.concat_eq_append] at ha ⊢
    have hx : isSettled x = true := ha x (by simp)
    have halike := alike_of_isSettled hx b b'
    have hstep := step_of_isSettled hx (stateAfter s front (x :: b)) b b'
    rw [regionsIn_append, regionsIn_append]
    simp only [List.singleton_append, regionsIn, List.nil_append]
    rw [regionsIn_of_alike halike, ← (stateAfter_of_alike halike s front).1, hstep]

/-- Inert text is code. -/
theorem regionsIn_of_isInert {v : Text} (hv : ∀ c ∈ v, isInert c = true) (b : Text) :
    regionsIn .ground v b = List.replicate v.length .code := by
  induction v with
  | nil => rfl
  | cons c v ih =>
    have hstep : step .ground c (v ++ b) = (.code, .ground) := stepGround_of_isInert (hv c (by simp)) _
    simp only [regionsIn, hstep, List.length_cons, List.replicate_succ,
      ih (fun x hx => hv x (by simp [hx]))]

/-- Text without closers goes on with the comment or literal that it stands in. -/
theorem regionsIn_inside {mode : Mode} (hmode : mode = .blockComment ∨ mode = .verbatim) {v : Text}
    (hv : Unclosing v) (b : Text) :
    regionsIn ⟨mode, 0⟩ v b = List.replicate v.length mode.region := by
  induction v with
  | nil => rfl
  | cons c v ih =>
    simp only [regionsIn, hv.stays hmode b, List.length_cons, List.replicate_succ, ih hv.tail]

/-! ## The tokens of a part -/

/-- A character goes on with a token. -/
def carriesOn (p : Char × Region) : Bool :=
  p.2 matches .token _ false

/-- A character opens a token. -/
def opensToken (region : Region) : Bool :=
  region matches .token _ true

@[simp]
theorem tokensOf_code (c : Char) (ps : List (Char × Region)) :
    tokensOf ((c, .code) :: ps) = tokensOf ps :=
  rfl

@[simp]
theorem tokensOf_carriesOn (c : Char) (kind : Kind) (ps : List (Char × Region)) :
    tokensOf ((c, .token kind false) :: ps) = tokensOf ps :=
  rfl

@[simp]
theorem tokensOf_opens (c : Char) (kind : Kind) (ps : List (Char × Region)) :
    tokensOf ((c, .token kind true) :: ps) = (c :: (ps.takeWhile carriesOn).map Prod.fst) :: tokensOf ps :=
  rfl

/-- The tokens of two parts, if the second does not go on with a token. -/
theorem tokensOf_append (ps : List (Char × Region)) {qs : List (Char × Region)}
    (h : qs.takeWhile carriesOn = []) : tokensOf (ps ++ qs) = tokensOf ps ++ tokensOf qs := by
  induction ps with
  | nil => rfl
  | cons p ps ih =>
    obtain ⟨c, region⟩ := p
    cases region with
    | code => exact ih
    | token kind first =>
      cases first with
      | false => exact ih
      | true =>
        have hrun : (ps ++ qs).takeWhile carriesOn = ps.takeWhile carriesOn := by
          rw [List.takeWhile_append, h, List.append_nil]
          split
          · next hall =>
            exact ((List.takeWhile_prefix carriesOn).eq_of_length hall).symm
          · rfl
        rw [List.cons_append, tokensOf_opens, tokensOf_opens, ih, hrun, List.cons_append]

/-- The tokens of `a` when `b` follows it. -/
def tokensIn (s : State) (a b : Text) : List Text :=
  tokensOf (a.zip (regionsIn s a b))

theorem takeWhile_carriesOn_ground (t : Text) :
    (t.zip (regionsFrom .ground t)).takeWhile carriesOn = [] := by
  cases t with
  | nil => rfl
  | cons c rest =>
    have hhead := head_regionsFrom_ground (c :: rest)
    rw [regionsFrom_cons, List.head?_cons] at hhead
    rw [regionsFrom_cons, List.zip_cons_cons]
    refine List.takeWhile_cons_of_neg ?_
    intro hgoes
    unfold carriesOn at hgoes
    split at hgoes
    · next heq => exact hhead _ (by rw [← heq])
    · cases hgoes

/-- **The tokens of a text** that is cut outside of comments and literals are those of its parts. -/
theorem tokens_append {a b : Text} (h : stateAfter .ground a b = .ground) :
    tokens (a ++ b) = tokensIn .ground a b ++ tokens b := by
  have hzip : (a ++ b).zip (regions (a ++ b))
      = a.zip (regionsIn .ground a b) ++ b.zip (regionsFrom .ground b) := by
    rw [regions, regionsFrom_append, h, List.zip_append (by simp)]
  rw [tokens, hzip, tokensOf_append _ (takeWhile_carriesOn_ground b)]
  rfl

theorem tokensIn_nil (s : State) (a : Text) : tokensIn s a [] = tokensOf (a.zip (regionsFrom s a)) := by
  have happend := regionsFrom_append s a []
  rw [List.append_nil] at happend
  rw [tokensIn, happend]
  simp [regionsFrom]

/-- Code has no tokens. -/
theorem tokensOf_replicate_code (v : Text) (n : Nat) :
    tokensOf (v.zip (List.replicate n .code)) = [] := by
  induction v generalizing n with
  | nil => rfl
  | cons c v ih =>
    cases n with
    | zero => rfl
    | succ n => exact ih n

theorem tokensIn_of_isInert {v : Text} (hv : ∀ c ∈ v, isInert c = true) (b : Text) :
    tokensIn .ground v b = [] := by
  rw [tokensIn, regionsIn_of_isInert hv, tokensOf_replicate_code]

theorem tokens_of_isInert {v : Text} (hv : ∀ c ∈ v, isInert c = true) : tokens v = [] := by
  have hnil := tokensIn_nil .ground v
  rw [tokensIn_of_isInert hv] at hnil
  exact hnil.symm

/-! ## How many there are, and how long -/

theorem length_tokensOf (ps : List (Char × Region)) :
    (tokensOf ps).length = ps.countP (fun p => opensToken p.2) := by
  induction ps with
  | nil => rfl
  | cons p ps ih =>
    obtain ⟨c, region⟩ := p
    cases region with
    | code => simpa [opensToken] using ih
    | token kind first => cases first <;> simpa [opensToken] using ih

/-- There is one token for every character that opens one. -/
theorem length_tokens (t : Text) : (tokens t).length = (regions t).countP opensToken := by
  have hsnd : (t.zip (regions t)).map Prod.snd = regions t := List.map_snd_zip (by simp [length_regions])
  rw [tokens, length_tokensOf]
  conv_rhs => rw [← hsnd, List.countP_map]
  rfl

/-- The characters that are not code, read on from a state: what goes on with a token, and the tokens. -/
theorem filter_ne_code {s : State} {t : Text} (hs : Anchored s t) :
    ((t.zip (regionsFrom s t)).filter (fun p => p.2 != .code)).map Prod.fst
      = ((t.zip (regionsFrom s t)).takeWhile carriesOn).map Prod.fst
        ++ (tokensOf (t.zip (regionsFrom s t))).flatten := by
  induction t generalizing s with
  | nil => rfl
  | cons c rest ih =>
    have hrest := ih hs.step
    have hcode := fun h => (hs.step_code h).1
    rw [regionsFrom_cons, List.zip_cons_cons]
    generalize step s c rest = next at hrest hcode
    obtain ⟨region, s'⟩ := next
    cases region with
    | code =>
      obtain rfl : s' = .ground := hcode rfl
      rw [takeWhile_carriesOn_ground] at hrest
      simpa [carriesOn] using hrest
    | token kind first =>
      cases first with
      | true => simpa [carriesOn] using hrest
      | false =>
        rw [List.takeWhile_cons_of_pos rfl]
        simpa using hrest

/-- **The tokens side by side** are the characters that are not code. -/
theorem flatten_tokens (t : Text) :
    (tokens t).flatten = ((t.zip (regions t)).filter (fun p => p.2 != .code)).map Prod.fst := by
  have hfilter := filter_ne_code (anchored_ground t)
  rw [takeWhile_carriesOn_ground] at hfilter
  exact hfilter.symm

theorem length_flatten_tokens (t : Text) :
    (tokens t).flatten.length = (regions t).countP (· != .code) := by
  have hsnd : (t.zip (regions t)).map Prod.snd = regions t := List.map_snd_zip (by simp [length_regions])
  rw [flatten_tokens, List.length_map, ← List.countP_eq_length_filter]
  conv_rhs => rw [← hsnd, List.countP_map]
  rfl

/-! ## Splices -/

/-- **Insertion outside.** Inert text that is put outside of comments and literals, behind a settled character,
leaves the tokens alone. -/
theorem tokens_insertAt {code v : Text} {offset : Nat} (hout : Outside code offset)
    (hlast : ∀ x, (code.take offset).getLast? = some x → isSettled x = true)
    (hv : ∀ c ∈ v, isInert c = true) : tokens (insertAt code offset v) = tokens code := by
  have hstate : ∀ b, stateAfter .ground (code.take offset) b = .ground := by
    intro b
    rw [(stateAfter_settled hlast .ground b (code.drop offset)).1]
    exact hout
  have hregions := regionsIn_settled hlast .ground (v ++ code.drop offset) (code.drop offset)
  have hcode := tokens_append (hstate (code.drop offset))
  rw [List.take_append_drop] at hcode
  rw [insertAt_eq, tokens_append (hstate _),
    tokens_append (maskIn_of_isInert hv _).1, tokensIn_of_isInert hv, List.nil_append, hcode, tokensIn,
    hregions]
  rfl

/-- **Insertion between the lines of a token.** Text without closers opens no token and makes one longer. -/
theorem length_tokens_insertAt_inside {code v : Text} {offset : Nat} (hline : StartsLine code offset)
    (hin : ¬ Outside code offset) (hv : Unclosing v) :
    (tokens (insertAt code offset v)).length = (tokens code).length
      ∧ (tokens (insertAt code offset v)).flatten.length = (tokens code).flatten.length + v.length := by
  obtain ⟨mode, hmode, hafter⟩ := stateAfter_inside hline hin
  have hcode := regionsFrom_append .ground (code.take offset) (code.drop offset)
  rw [List.take_append_drop, hafter] at hcode
  have hchanged : regions (insertAt code offset v) = regionsIn .ground (code.take offset) (code.drop offset)
      ++ (List.replicate v.length mode.region ++ regionsFrom ⟨mode, 0⟩ (code.drop offset)) := by
    rw [insertAt_eq, regions, regionsFrom_append,
      regionsIn_settled hline.settled .ground _ (code.drop offset),
      (stateAfter_settled hline.settled .ground _ (code.drop offset)).1, hafter, regionsFrom_append,
      regionsIn_inside hmode hv, (maskIn_inside hmode hv _).1]
  have hregion : opensToken mode.region = false ∧ (mode.region != .code) = true := by
    rcases hmode with rfl | rfl <;> exact ⟨rfl, rfl⟩
  rw [length_tokens, length_tokens, length_flatten_tokens, length_flatten_tokens, hchanged, regions, hcode]
  simp only [List.countP_append, List.countP_replicate, hregion]
  constructor
  · simp
  · simp only [if_true]
    omega

/-- A slice of visible code ends as it does in the mask. -/
theorem getLast?_slice {code A U B : Text} {z : Char} (h : mask code = A ++ U ++ B)
    (hz : U.getLast? = some z) (hzv : isVisible z = true) :
    (slice code A.length (A.length + U.length)).getLast? = some z := by
  obtain ⟨Z, rfl⟩ := List.getLast?_eq_some_iff.mp hz
  have hcut : mask code = (A ++ Z) ++ z :: B := by rw [h]; simp
  obtain ⟨hdrop, -⟩ := visible_outside hcut hzv
  have hchar : code[(A ++ Z).length]? = some z := by
    rw [← List.head?_drop, hdrop, List.head?_cons]
  have hlen : A.length + (Z ++ [z]).length = (A ++ Z).length + 1 := by
    simp only [List.length_append, List.length_singleton]
    omega
  rw [hlen, slice_add_one (by simp) hchar, List.getLast?_concat]

/-- **Replacement of code.** Inert text that takes the place of what starts and ends with visible code takes the
tokens in between with it, and leaves the others alone. -/
theorem tokens_splice {code A U B v : Text} {x y z : Char} (h : mask code = A ++ U ++ B)
    (hx : U.head? = some x) (hxv : isVisible x = true) (hxn : isNeutral x = true)
    (hz : U.getLast? = some z) (hzv : isVisible z = true) (hzs : isSettled z = true)
    (hy : v.head? = some y) (hyn : isNeutral y = true) (hv : ∀ c ∈ v, isInert c = true) :
    ∃ front back,
      tokens code = front ++ (tokens (slice code A.length (A.length + U.length)) ++ back)
        ∧ tokens (splice code A.length (A.length + U.length) v) = front ++ back := by
  have hlast := getLast?_slice h hz hzv
  obtain ⟨hfirst, houtA, houtB⟩ := outside_ends h hx hxv hz hzv
  obtain ⟨v', rfl⟩ := List.head?_eq_some_iff.mp hy
  generalize hj : A.length + U.length = j at hlast houtB
  have hle : A.length ≤ j := by omega
  -- the script in three parts
  have hparts : code.drop A.length = slice code A.length j ++ code.drop j := by
    rw [slice, List.drop_take, ← Nat.add_sub_cancel' hle, ← List.drop_drop, Nat.add_sub_cancel_left,
      List.take_append_drop]
  have hfront : code.take j = code.take A.length ++ slice code A.length j := by
    rw [slice, List.drop_take, ← List.take_add, Nat.add_sub_cancel' hle]
  have hstateA : stateAfter .ground (code.take A.length) (slice code A.length j ++ code.drop j)
      = .ground := by
    rw [← hparts]
    exact houtA
  have hstateW : stateAfter .ground (slice code A.length j) (code.drop j) = .ground := by
    rw [Outside, hfront, stateAfter_append, hstateA] at houtB
    exact houtB
  have hslice : tokensIn .ground (slice code A.length j) (code.drop j)
      = tokens (slice code A.length j) := by
    have hsettled : ∀ c, (slice code A.length j).getLast? = some c → isSettled c = true := by
      intro c hc
      rw [hlast, Option.some.injEq] at hc
      rwa [← hc]
    rw [tokensIn, regionsIn_settled hsettled .ground _ []]
    exact tokensIn_nil .ground _
  have halike : Alike (code.drop A.length) (y :: v' ++ code.drop j) := by
    rw [hfirst]
    exact alike_of_isNeutral hxn hyn _ _
  refine ⟨tokensIn .ground (code.take A.length) (code.drop A.length), tokens (code.drop j), ?_, ?_⟩
  · have hcode : code = code.take A.length ++ (slice code A.length j ++ code.drop j) := by
      rw [← hparts, List.take_append_drop]
    conv_lhs => rw [hcode]
    rw [tokens_append hstateA, tokens_append hstateW, hslice, ← hparts]
  · rw [splice, List.append_assoc, tokens_append, tokens_append (maskIn_of_isInert hv _).1,
      tokensIn_of_isInert hv, List.nil_append, tokensIn, ← regionsIn_of_alike halike]
    · rfl
    · rw [← (stateAfter_of_alike halike .ground _).1]
      exact houtA

end ChartLint.Lexing
