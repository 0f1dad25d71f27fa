import ChartLint.Proofs.Comments.Scan
import ChartLint.Proofs.Rule.Readings

/-!
# Signal names and comments

Signal names are literals, so their check searches the script itself, and a comment can get in its way.
What it makes of a script hangs on two lists of readings: the entries, and the stops and targets
(`signals_eq`). A call that starts in a comment is in neither, and where no comment disturbs the two
searches the findings are those on the uncommented script (`signals_uncomment`).

They are not the same on every script. In `mistaken` a literal in a comment is taken for the name of the
entry, and the stop for the real name is reported.
-/

namespace ChartLint.Rule.Skeleton

open Pattern Lexing

/-! ## What is complained of -/

/-- A stop or a target for a signal that the script never enters with. -/
@[ext]
structure Complaint where
  line : Nat
  method : Text
  signal : Text
deriving DecidableEq, Repr

/-- What the check says of a stop or a target. -/
def Complaint.finding (c : Complaint) : Finding :=
  let method := String.ofList c.method
  let signal := String.ofList c.signal
  .error c.line s!"{method} signal \"{signal}\" does not match any EnterLong/EnterShort signal name"

/-- The stops and targets for signals that the script never enters with. -/
def complaints (src : Source) : List Complaint :=
  ((riskSignal.readings src).filter
    (fun risk => !((entrySignal.readings src).map (·.name)).contains risk.name)).map
      (fun risk => ⟨Text.lineOf src.code risk.start, risk.kind, risk.name⟩)

/-- The names of the entries, as they are read. -/
theorem entrySignals_readings (src : Source) :
    entrySignals src = .ok ((entrySignal.readings src).map (·.name)) := by
  rw [entrySignals_eq, readings, List.filter_map, List.map_map]
  rfl

/-- **The check, by what it reads.** Its first and its last report look at the mask alone. -/
theorem signals_eq (src : Source) :
    signals src
      = .ok (wholeIf (!entryMethod.occursIn src.masked)
          (.warning 0 "Strategy never calls EnterLong/EnterShort")
        ++ (complaints src).map Complaint.finding
        ++ wholeIf
          (positionManagement.occursIn src.masked
            && !Text.isPartOf "OnExecutionUpdate".toList src.masked)
          (.warning 0 "Position management detected but OnExecutionUpdate() is not overridden")) := by
  have hrisks : (complaints src).map Complaint.finding
      = ((riskSignal.findAll src.code).filter (fun m => !(src.isBlanked m.start
          || ((entrySignal.readings src).map (·.name)).contains (m.part .name src.code)))).map
            (unknownSignal src) := by
    rw [complaints]
    generalize (entrySignal.readings src).map (·.name) = known
    rw [readings, List.filter_map, List.filter_map, List.filter_filter, List.map_map, List.map_map]
    congr 1
    refine List.filter_congr (fun m _ => ?_)
    rw [Bool.not_or]
    exact Bool.and_comm _ _
  have hread : (riskSignal.findAll src.code).filterMapM
      (riskFinding? src ((entrySignal.readings src).map (·.name)))
      = .ok ((complaints src).map Complaint.finding) := by
    rw [hrisks, ← filterMap_unless]
    exact filterMapM_eq_ok (fun m hm => by
      rw [riskFinding?, Source.inToken_of_mem_findAll mayBeEmpty_signals.2 hm, map_ok])
  rw [signals, entrySignals_readings, ok_bind, hread, ok_bind]
  rfl

/-! ## What a report says -/

theorem toList_message (c : Complaint) :
    c.finding.message.toList
      = c.method ++ ' ' :: ("signal \"".toList
        ++ (c.signal ++ "\" does not match any EnterLong/EnterShort signal name".toList)) := by
  simp only [Complaint.finding, Finding.error, toString, String.toList_append, String.toList_ofList,
    List.append_assoc]
  rfl

/-- The line, the method and the signal can be read off the report. -/
theorem finding_inj {c d : Complaint} (hc : ' ' ∉ c.method) (hd : ' ' ∉ d.method)
    (h : c.finding = d.finding) : c = d := by
  have hline : c.line = d.line := Int.ofNat.inj (congrArg (fun f : Finding => f.line) h)
  have hmessage := congrArg (fun f : Finding => f.message.toList) h
  simp only [toList_message] at hmessage
  -- the method is the first word of the report, and the signal is what the fixed text leaves
  have hword : ∀ {m : Text} (r : Text), ' ' ∉ m → (m ++ ' ' :: r).takeWhile (· != ' ') = m := by
    intro m r hm
    have hpass : ∀ x ∈ m, (x != ' ') = true :=
      fun x hx => bne_iff_ne.mpr (ne_of_mem_of_not_mem hx hm)
    rw [List.takeWhile_append_of_pos hpass]
    simp
  have hmethod : c.method = d.method := by
    have hfront := congrArg (List.takeWhile (· != ' ')) hmessage
    rwa [hword _ hc, hword _ hd] at hfront
  have hsignal : c.signal = d.signal := by
    rw [hmethod] at hmessage
    have htail := (List.cons.inj (List.append_cancel_left hmessage)).2
    exact List.append_cancel_right (List.append_cancel_left htail)
  exact Complaint.ext hline hmethod hsignal

theorem map_finding_inj {cs ds : List Complaint} (hcs : ∀ c ∈ cs, ' ' ∉ c.method)
    (hds : ∀ d ∈ ds, ' ' ∉ d.method) (h : cs.map Complaint.finding = ds.map Complaint.finding) :
    cs = ds := by
  induction cs generalizing ds with
  | nil => exact (List.map_eq_nil_iff.mp h.symm).symm
  | cons c cs ih =>
    cases ds with
    | nil => cases h
    | cons d ds =>
      rw [List.forall_mem_cons] at hcs hds
      obtain ⟨hfirst, hrest⟩ := List.cons.inj h
      rw [finding_inj hcs.1 hds.1 hfirst, ih hcs.2 hds.2 hrest]

/-- The name of a method is a word. -/
theorem not_mem_method {src : Source} {c : Complaint} (h : c ∈ complaints src) : ' ' ∉ c.method := by
  obtain ⟨risk, hrisk, rfl⟩ := List.mem_map.mp h
  obtain ⟨m, hm, rfl⟩ := List.mem_map.mp (List.mem_of_mem_filter (List.mem_of_mem_filter hrisk))
  have hall : ∀ x ∈ m.part .kind src.code, x ≠ ' ' := by
    refine (found_of_mem_findAll hm).forall_mem_part (fun q hq x w r hacc c hc => ?_)
    rintro rfl
    have havoids : ∀ q ∈ riskSignal.keptBy .kind, q.avoids ' ' = true := by decide
    exact not_mem_of_accepts (havoids q hq) hacc hc
  exact fun hmem => hall ' ' hmem rfl

/-- Equal reports are equal complaints. -/
theorem complaints_inj {src src' : Source}
    (h : (complaints src).map Complaint.finding = (complaints src').map Complaint.finding) :
    complaints src = complaints src' :=
  map_finding_inj (fun _ hc => not_mem_method hc) (fun _ hd => not_mem_method hd) h

/-! ## With and without the comments -/

theorem startsVisible_entrySignal : entrySignal.StartsVisible :=
  ⟨noStart_of_startFree (by decide), noStart_of_startFree (by decide), noStart_of_startFree (by decide)⟩

theorem startsVisible_riskSignal : riskSignal.StartsVisible :=
  ⟨noStart_of_startFree (by decide), noStart_of_startFree (by decide), noStart_of_startFree (by decide)⟩

/-- **The findings are the complaints:** with and without the comments the check reports the same exactly
if it complains of the same. -/
theorem signals_eq_iff_complaints (code : Text) :
    signals (.ofCode code) = signals (.ofCode (uncomment code))
      ↔ complaints (.ofCode code) = complaints (.ofCode (uncomment code)) := by
  rw [signals_eq, signals_eq, masked_uncomment]
  constructor
  · intro h
    exact complaints_inj (List.append_cancel_left (List.append_cancel_right (Except.ok.inj h)))
  · intro h
    rw [h]

/-- Where no comment disturbs the two searches the complaints are the same. -/
theorem complaints_uncomment {code : Text} (hentry : entrySignal.Undisturbed code)
    (hrisk : riskSignal.Undisturbed code) :
    complaints (.ofCode code) = complaints (.ofCode (uncomment code)) := by
  rw [complaints, complaints, hentry.readings_uncomment startsVisible_entrySignal,
    hrisk.readings_uncomment startsVisible_riskSignal]
  refine List.map_congr_left (fun risk _ => ?_)
  rw [Source.ofCode, Source.ofCode, lineOf_uncomment]

/-- **Signal names and comments.** Whatever the comments, no call that starts in one is read, and the
check says the same of the script and of its uncommented twin exactly if it complains of the same stops
and targets in both. So it does where no comment disturbs the two searches. -/
theorem signals_uncomment (code : Text) :
    (∀ reading ∈ entrySignal.readings (.ofCode code) ++ riskSignal.readings (.ofCode code),
        ¬ InComment code reading.start)
      ∧ (signals (.ofCode code) = signals (.ofCode (uncomment code))
        ↔ complaints (.ofCode code) = complaints (.ofCode (uncomment code)))
      ∧ (entrySignal.Undisturbed code → riskSignal.Undisturbed code →
        signals (.ofCode code) = signals (.ofCode (uncomment code))) := by
  refine ⟨fun reading hreading => ?_, signals_eq_iff_complaints code, fun hentry hrisk => ?_⟩
  · rcases List.mem_append.mp hreading with h | h
    · exact not_inComment_of_mem_readings startsVisible_entrySignal h
    · exact not_inComment_of_mem_readings startsVisible_riskSignal h
  · exact (signals_eq_iff_complaints code).mpr (complaints_uncomment hentry hrisk)

/-- A comment in a call and a call in a comment. -/
def remarked : Text :=
  "EnterLong(/* long */ \"a\"); // SetStopLoss(\"b\");\nSetStopLoss(\"c\");".toList

/-- No comment disturbs the searches. -/
theorem signals_uncomment_remarked :
    (entrySignal.Undisturbed remarked ∧ riskSignal.Undisturbed remarked)
      ∧ signals (.ofCode remarked) = signals (.ofCode (uncomment remarked)) := by
  have hentry : entrySignal.Undisturbed remarked := by decide +kernel
  have hrisk : riskSignal.Undisturbed remarked := by decide +kernel
  exact ⟨⟨hentry, hrisk⟩, (signals_uncomment remarked).2.2 hentry hrisk⟩

/-- A comment with a literal in front of the name of the entry. -/
def mistaken : Text :=
  "EnterLong(/* \"a\" */ \"b\"); SetStopLoss(\"b\");".toList

/-- **A comment is taken for a name:** the stop for the entry's own name is reported. -/
theorem signals_mistaken :
    complaints (.ofCode mistaken) = [⟨1, "SetStopLoss".toList, "b".toList⟩]
      ∧ complaints (.ofCode (uncomment mistaken)) = []
      ∧ signals (.ofCode mistaken) ≠ signals (.ofCode (uncomment mistaken)) := by
  have hscript : complaints (.ofCode mistaken) = [⟨1, "SetStopLoss".toList, "b".toList⟩] := by
    decide +kernel
  have htwin : complaints (.ofCode (uncomment mistaken)) = [] := by decide +kernel
  refine ⟨hscript, htwin, fun h => ?_⟩
  have hsame := (signals_eq_iff_complaints mistaken).mp h
  rw [hscript, htwin] at hsame
  cases hsame

end ChartLint.Rule.Skeleton
