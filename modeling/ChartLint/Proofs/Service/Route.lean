import ChartLint.Proofs.Service.Request
import ChartLint.Proofs.Service.Target
import ChartLint.Proofs.Text.Trim
import ChartLint.Service.Route

/-!
# What the service answers

Only a target that cannot be read is left without an answer (`serve_eq_error_iff`). The paths that
lead somewhere are the paths of the places, with slashes behind them and at most one line feed in
front of the slashes (`Place.ofPath?_eq_some_iff`); so an endpoint is reached by its path, with any
slashes and any query behind it (`serve_path`).

An endpoint works on a script exactly if the body asks it to and the script is accepted
(`Endpoint.works_iff`). A larger size limit turns refusals for size into other answers and changes
nothing else (`Endpoint.reply_withLimit`).
-/

namespace ChartLint.Service

open Text

/-! ## Places -/

namespace Place

/-- A text names a path: it is the path, with at most one line feed behind it. -/
def Names (known : String) (path : Text) : Prop :=
  path = known.toList ∨ path = known.toList ++ ['\n']

instance (known : String) (path : Text) : Decidable (Names known path) :=
  inferInstanceAs (Decidable (_ ∨ _))

theorem at?_eq (path : Text) :
    at? path = (all.find? (fun entry => Names entry.1 path)).map (·.2) := by
  have hnames : ∀ entry : String × Place,
      (decide (path = entry.1.toList) || decide (path = entry.1.toList ++ ['\n']))
        = decide (Names entry.1 path) := fun _ => (Bool.decide_or _ _).symm
  simp only [at?, hnames]

/-- No path of a place ends in a slash or a line feed, and no two of them are the same. -/
theorem all_apart : ∀ entry ∈ all,
    entry.1.toList.getLast? ≠ some '/' ∧ entry.1.toList.getLast? ≠ some '\n'
      ∧ ∀ entry' ∈ all, entry.1.toList = entry'.1.toList → entry = entry' := by
  decide

/-- A text names one place at most. -/
theorem Names.eq {entry entry' : String × Place} (hentry : entry ∈ all) (hentry' : entry' ∈ all)
    {path : Text} (h : Names entry.1 path) (h' : Names entry'.1 path) : entry = entry' := by
  have hlast : ∀ e ∈ all, ∀ t : Text, e.1.toList ≠ t ++ ['\n'] := fun e he t heq =>
    (all_apart e he).2.1 (by rw [heq, List.getLast?_concat])
  refine (all_apart entry hentry).2.2 entry' hentry' ?_
  rcases h with rfl | rfl <;> rcases h' with h' | h'
  · exact h'
  · exact absurd h' (hlast entry hentry _)
  · exact absurd h'.symm (hlast entry' hentry' _)
  · exact (List.append_inj' h' rfl).1

/-- The place at exactly a path is the one that the path names. -/
theorem at?_eq_some_iff {path : Text} {place : Place} :
    at? path = some place ↔ ∃ known, (known, place) ∈ all ∧ Names known path := by
  rw [at?_eq]
  constructor
  · intro h
    obtain ⟨⟨known, place'⟩, hfind, rfl⟩ := Option.map_eq_some_iff.mp h
    have hknown := List.find?_some hfind
    exact ⟨known, List.mem_of_find?_eq_some hfind, of_decide_eq_true hknown⟩
  · rintro ⟨known, hmem, hpath⟩
    cases hfind : all.find? (fun entry => Names entry.1 path) with
    | none => exact absurd (decide_eq_true hpath) (List.find?_eq_none.mp hfind _ hmem)
    | some entry =>
      have hentry := List.find?_some hfind
      rw [Names.eq (List.mem_of_find?_eq_some hfind) hmem (of_decide_eq_true hentry) hpath]
      rfl

/-- Slashes are cut off behind a text that does not end in one. -/
theorem trimEndBy_slashes {t : Text} (h : t.getLast? ≠ some '/') (n : Nat) :
    trimEndBy (· == '/') (t ++ List.replicate n '/') = t := by
  rw [trimEndBy_append_of_forall (fun c hc => by rw [(List.mem_replicate.mp hc).2]; rfl)]
  refine trimEndBy_of_getLast? (fun c hc => ?_)
  rw [beq_eq_false_iff_ne]
  rintro rfl
  exact h hc

/-- What is cut off are slashes. -/
theorem exists_slashes (t : Text) :
    ∃ n, trimEndBy (· == '/') t ++ List.replicate n '/' = t := by
  obtain ⟨cut, hcut, hslash⟩ := exists_trimEndBy_append (· == '/') t
  refine ⟨cut.length, ?_⟩
  rwa [← List.eq_replicate_of_mem (fun c hc => eq_of_beq (hslash c hc))]

/-- **The paths that lead to a place**: its own, with at most one line feed behind it, and any
slashes behind that. -/
theorem ofPath?_eq_some_iff {path : Text} {place : Place} :
    ofPath? path = some place ↔
      ∃ known named n, (known, place) ∈ all ∧ Names known named
        ∧ path = named ++ List.replicate n '/' := by
  constructor
  · intro h
    unfold ofPath? at h
    split at h
    · next found hfound =>
      obtain rfl := Option.some.inj h
      obtain ⟨known, hmem, hnames⟩ := at?_eq_some_iff.mp hfound
      exact ⟨known, path, 0, hmem, hnames, by simp⟩
    · split at h
      · obtain ⟨known, hmem, hnames⟩ := at?_eq_some_iff.mp h
        obtain ⟨n, hn⟩ := exists_slashes path
        exact ⟨known, _, n, hmem, hnames, hn.symm⟩
      · cases h
  · rintro ⟨known, named, n, hmem, hnames, rfl⟩
    have hlast : named.getLast? ≠ some '/' := by
      rcases hnames with rfl | rfl
      · exact (all_apart _ hmem).1
      · rw [List.getLast?_concat]; decide
    have hat : at? named = some place := at?_eq_some_iff.mpr ⟨known, hmem, hnames⟩
    cases n with
    | zero => rw [List.replicate_zero, List.append_nil, ofPath?, hat]
    | succ n =>
      -- the slashes hide the place, and without them the path names it
      have hnone : at? (named ++ List.replicate (n + 1) '/') = none := by
        by_contra hsome
        obtain ⟨other, hother⟩ := Option.ne_none_iff_exists'.mp hsome
        obtain ⟨known', hmem', hnames'⟩ := at?_eq_some_iff.mp hother
        have hend : (named ++ List.replicate (n + 1) '/').getLast? = some '/' := by
          rw [List.replicate_succ', ← List.append_assoc, List.getLast?_concat]
        rcases hnames' with h' | h'
        · exact (all_apart _ hmem').1 (by rw [← h', hend])
        · rw [h', List.getLast?_concat] at hend
          cases hend
      have hend : (named ++ List.replicate (n + 1) '/').getLast? = some '/' := by
        rw [List.replicate_succ', ← List.append_assoc, List.getLast?_concat]
      simp only [ofPath?, hnone, if_pos hend, trimEndBy_slashes hlast, hat]

end Place

/-! ## Endpoints -/

/-- A script that the service accepts: it is more than blanks, and no larger than the settings
allow. -/
structure Settings.Accepts (s : Settings) (code : String) : Prop where
  inked : (Text.trim code.toList).isEmpty = false
  fits : (code.utf8ByteSize : Int) ≤ s.maxCodeBytes

/-- Whether an answer is work done on a script. -/
def Reply.isWork : Reply → Bool
  | .audit _ | .dryRun _ | .modernize _ => true
  | _ => false

section Code

variable {s : Settings} {code : String} {work : Text → Reply}

/-- An accepted script is worked on. -/
theorem withCode_of_accepts (h : s.Accepts code) : withCode s code work = work code.toList := by
  rw [withCode, if_neg (by rw [h.inked]; decide), if_neg (Int.not_lt.mpr h.fits)]

/-- No other script is worked on. -/
theorem accepts_of_isWork (h : (withCode s code work).isWork = true) : s.Accepts code := by
  unfold withCode at h
  split at h
  · cases h
  · next hinked =>
    split at h
    · cases h
    · next hfits => exact ⟨by simpa using hinked, Int.not_lt.mp hfits⟩

/-- A larger limit changes the answer to scripts that were too large before, and to no others. -/
theorem withCode_withLimit {limit : Int} (hlimit : s.maxCodeBytes ≤ limit)
    (h : (withCode s code work).status ≠ 413) :
    withCode { s with maxCodeBytes := limit } code work = withCode s code work := by
  unfold withCode at h ⊢
  split
  · rfl
  · next hinked =>
    rw [if_neg hinked] at h
    split at h
    · exact absurd rfl h
    · next hfits =>
      have hsmall : ¬ limit < (code.utf8ByteSize : Int) := by omega
      rw [if_neg hsmall, if_neg hfits]

variable {α : Type} {request : Read α} {script : α → String} {task : α → Text → Reply}

/-- A request that was read is worked on if its script is accepted. -/
theorem withRequest_of_accepts {a : α} (h : request = .ok a) (haccepts : s.Accepts (script a)) :
    withRequest request (fun a => withCode s (script a) (task a)) = task a (script a).toList := by
  subst h
  exact withCode_of_accepts haccepts

/-- Where there is work, a request was read, and its script is accepted. -/
theorem exists_of_isWork
    (h : (withRequest request (fun a => withCode s (script a) (task a))).isWork = true) :
    ∃ a, request = .ok a ∧ s.Accepts (script a)
      ∧ withRequest request (fun a => withCode s (script a) (task a)) = task a (script a).toList := by
  cases request with
  | error rejections => cases h
  | ok a =>
    have haccepts := accepts_of_isWork h
    exact ⟨a, rfl, haccepts, withCode_of_accepts haccepts⟩

theorem withRequest_withLimit {limit : Int} (hlimit : s.maxCodeBytes ≤ limit)
    (h : (withRequest request (fun a => withCode s (script a) (task a))).status ≠ 413) :
    withRequest request (fun a => withCode { s with maxCodeBytes := limit } (script a) (task a))
      = withRequest request (fun a => withCode s (script a) (task a)) := by
  cases request with
  | error rejections => rfl
  | ok a => exact withCode_withLimit hlimit h

end Code

namespace Endpoint

variable (p : Platform) (s : Settings) (body : Option Payload)

/-- What a body asks an endpoint for: the script to work on, and what the work gives. -/
inductive Asks : Endpoint → String → Reply → Prop
  | audit {r : AuditRequest} (h : AuditRequest.read body = .ok r) :
    Asks .audit r.code
      (.audit (Audit.run (Rule.suite p) (r.strict.getD s.strictDefault) r.autoFix r.code.toList))
  | dryRun {r : DryRunRequest} (h : DryRunRequest.read body = .ok r) :
    Asks .dryRun r.code (.dryRun (DryRun.run p r.code.toList))
  | modernize {r : ModernizeRequest} (h : ModernizeRequest.read body = .ok r) :
    Asks .modernize r.code (.modernize (Modernize.run r.kind r.code.toList))

/-- **An endpoint works on a script** exactly if the body asks for it and the script is accepted. -/
theorem works_iff {e : Endpoint} {reply : Reply} :
    e.reply p s body = reply ∧ reply.isWork = true
      ↔ ∃ code, e.Asks p s body code reply ∧ s.Accepts code := by
  constructor
  · rintro ⟨rfl, hwork⟩
    cases e with
    | health => cases hwork
    | audit =>
      obtain ⟨r, hr, haccepts, hreply⟩ := exists_of_isWork hwork
      rw [Endpoint.reply, hreply]
      exact ⟨r.code, .audit hr, haccepts⟩
    | dryRun =>
      obtain ⟨r, hr, haccepts, hreply⟩ := exists_of_isWork hwork
      rw [Endpoint.reply, hreply]
      exact ⟨r.code, .dryRun hr, haccepts⟩
    | modernize =>
      obtain ⟨r, hr, haccepts, hreply⟩ := exists_of_isWork hwork
      rw [Endpoint.reply, hreply]
      exact ⟨r.code, .modernize hr, haccepts⟩
  · rintro ⟨code, hasks, haccepts⟩
    cases hasks with
    | audit h => exact ⟨withRequest_of_accepts h haccepts, rfl⟩
    | dryRun h => exact ⟨withRequest_of_accepts h haccepts, rfl⟩
    | modernize h => exact ⟨withRequest_of_accepts h haccepts, rfl⟩

/-- **A larger limit** lets an endpoint work on scripts that were too large before. It changes no
other answer. -/
theorem reply_withLimit {limit : Int} (hlimit : s.maxCodeBytes ≤ limit) {e : Endpoint}
    (h : (e.reply p s body).status ≠ 413) :
    e.reply p { s with maxCodeBytes := limit } body = e.reply p s body := by
  cases e with
  | health => rfl
  | audit => exact withRequest_withLimit hlimit h
  | dryRun => exact withRequest_withLimit hlimit h
  | modernize => exact withRequest_withLimit hlimit h

end Endpoint

/-! ## Requests -/

section Serve

variable (p : Platform) (s : Settings)

/-- **A request is left without an answer** exactly if its target cannot be read. -/
theorem serve_eq_error_iff {r : Request} {fault : Fault} :
    serve p s r = .error fault ↔ Target.read r.target = .error fault := by
  unfold serve
  cases Target.read r.target with
  | error fault' => constructor <;> (rintro ⟨⟩; rfl)
  | ok target =>
    rw [ok_bind]
    refine ⟨fun h => ?_, fun h => by cases h⟩
    split at h
    · cases h
    · split at h <;> cases h

/-- The path of an endpoint, with any slashes behind it, is plain as long as it is short enough. -/
theorem Endpoint.plain (e : Endpoint) {n : Nat}
    (hshort : e.path.toList.length + n ≤ Target.lengthLimit) :
    Target.Plain (e.path.toList ++ List.replicate n '/') := by
  have hplain : Target.Plain e.path.toList := by
    have hroot : ∃ rest, e.path.toList = '/' :: rest ∧ rest.head? ≠ some '/' := by
      cases e <;> exact ⟨_, rfl, by decide⟩
    have hchars : e.path.toList.all
        (fun c => !Target.isControl c && !Target.endsPath c && c != '%') = true := by
      cases e <;> decide
    have hdotless : Target.Dotless e.path.toList := by cases e <;> decide
    simp only [List.all_eq_true, Bool.and_eq_true, Bool.not_eq_true', bne_iff_ne] at hchars
    exact ⟨hroot, Nat.le_trans (Nat.le_add_right _ n) hshort, fun c hc => (hchars c hc).1.1,
      fun c hc => (hchars c hc).1.2, fun hc => (hchars '%' hc).2 rfl, hdotless⟩
  exact hplain.slashes (by cases e <;> decide) hshort

/-- **An endpoint is reached by its path**, with any slashes behind it and its method in any case. -/
theorem serve_path (e : Endpoint) {n : Nat} {method : String} (body : Option Payload)
    (hshort : e.path.toList.length + n ≤ Target.lengthLimit)
    (hmethod : String.ofList (Text.upper method.toList) = e.method) :
    serve p s ⟨method, String.ofList (e.path.toList ++ List.replicate n '/'), body⟩
      = .ok (e.reply p s body) := by
  have hplain := e.plain hshort
  have hplace : Place.ofPath? (e.path.toList ++ List.replicate n '/') = some (.endpoint e) :=
    Place.ofPath?_eq_some_iff.mpr
      ⟨e.path, _, n, by cases e <;> decide, .inl rfl, rfl⟩
  simp only [serve, hplain.read, ok_bind, hplain.destination, hplace, Place.methods,
    List.mem_singleton, if_pos hmethod]
  rfl

/-- **A query and a fragment change no answer**, as long as the target is short enough and they can
be printed. -/
theorem serve_append (method : String) (body : Option Payload) {t q : Text} {c : Char}
    (hc : Target.endsPath c = true) (hshort : (t ++ c :: q).length ≤ Target.lengthLimit)
    (hprinted : ∀ x ∈ q, Target.isControl x = false) :
    serve p s ⟨method, String.ofList (t ++ c :: q), body⟩
      = serve p s ⟨method, String.ofList t, body⟩ := by
  simp only [serve, Target.read_append hc hshort hprinted]

end Serve

end ChartLint.Service
