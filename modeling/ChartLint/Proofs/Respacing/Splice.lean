import ChartLint.Proofs.Respacing.Scan

/-!
# Splices of a respaced script

A rewriter works with splices at offsets that it found in the script. The splice at the places of two
offsets puts the respaced text between the respaced parts (`splice_text`), so that a rewriter that finds
its offsets by steady patterns and by scans rewrites the respaced script as it rewrites the script. The
one thing to check of the new text is that it brings no carriage return of its own (`Fits.splice`).

Line breaks that a rewriter adds are spelled as the script spells its own. A script without any line
break shows no spelling, so carriage returns change what is added only where there is one (`Suits`).
-/

namespace ChartLint.Respacing

open Text

variable {r : Respacing}

/-- **A splice** between two places. -/
theorem splice_text {t : Text} {a b : Nat} (ha : a ≤ t.length) (hb : b ≤ t.length) (new : Text) :
    (r.text t).splice (r.place t a) (r.place t b) (r.inner new) = r.text (t.splice a b new) := by
  rw [splice, splice, take_text ha, drop_text hb, text_append, text_append]

/-- **An insertion** at a place. -/
theorem insertAt_text {t : Text} {n : Nat} (hn : n ≤ t.length) (new : Text) :
    (r.text t).insertAt (r.place t n) (r.inner new) = r.text (t.insertAt n new) :=
  splice_text hn hn new

theorem fits_of_not_mem {t : Text} (h : '\r' ∉ t) : r.Fits t :=
  fun _ => h

/-- Where nothing is respelled every text fits. -/
theorem fits_of_not_returns (hr : r.returns = false) (t : Text) : r.Fits t := by
  intro h
  rw [hr] at h
  cases h

theorem Fits.append {a b : Text} (ha : r.Fits a) (hb : r.Fits b) : r.Fits (a ++ b) :=
  fun hr hmem => (List.mem_append.mp hmem).elim (ha hr) (hb hr)

theorem Fits.splice {t new : Text} (ht : r.Fits t) (hnew : r.Fits new) (a b : Nat) :
    r.Fits (t.splice a b new) :=
  ((ht.take a).append hnew).append (ht.drop b)

/-- A line starts at the place where it starts in the script. -/
theorem place_lineStart {t : Text} {n : Nat} (hn : n ≤ t.length) :
    r.place t (n - (lineFront (t.take n)).length)
      = r.place t n - (lineFront (t.take n)).length := by
  obtain ⟨g, x, rfl, rfl⟩ := exists_append hn
  rw [List.take_left]
  obtain ⟨l, hl, -⟩ := eq_append_lineFront g
  have hplain := r.inner_of_not_mem (not_mem_lineFront g)
  have hstart : g.length - (lineFront g).length = l.length := by
    have hlength := congrArg List.length hl
    rw [List.length_append] at hlength
    omega
  have hgrown : (r.text g).length = (r.text l).length + (lineFront g).length := by
    conv_lhs => rw [hl]
    rw [text_append, hplain, List.length_append]
  have hplace : r.place (g ++ x) l.length = (r.text l).length := by
    conv_lhs => rw [hl, List.append_assoc]
    exact place_append l (lineFront g ++ x)
  rw [hstart, hplace, place_append, hgrown, Nat.add_sub_cancel]

/-! ## The line breaks of a script -/

/-- The test for a part of a text is that of the library. -/
theorem isPartOf_iff {w t : Text} : isPartOf w t = true ↔ w <:+: t := by
  induction t with
  | nil => rw [isPartOf, List.isEmpty_iff, List.infix_nil]
  | cons c t ih => rw [isPartOf, Bool.or_eq_true, ih, List.isPrefixOf_iff_prefix, List.infix_cons_iff]

/-- Without carriage returns lines are broken by line feeds. -/
theorem lineBreak_of_not_mem {t : Text} (h : '\r' ∉ t) : lineBreak t = ['\n'] := by
  refine if_neg (fun hpart => h ?_)
  exact (isPartOf_iff.mp hpart).subset List.mem_cons_self

/-- The line break that a script is written with has a carriage return only if the script has one. -/
theorem fits_lineBreak {t : Text} (h : r.Fits t) : r.Fits (lineBreak t) := by
  intro hr
  rw [lineBreak_of_not_mem (h hr)]
  decide

/-- Line feeds in front make no pair with a carriage return. -/
theorem lineBreak_feeds (n : Nat) (t : Text) : lineBreak (List.replicate n '\n' ++ t) = lineBreak t := by
  induction n with
  | zero => rfl
  | succ n ih =>
    rw [← ih, List.replicate_succ, List.cons_append, lineBreak, isPartOf, lineBreak]
    rfl

/-- **The respacing suits a script:** the script has no carriage return yet and has a line feed, if
line feeds are to get carriage returns. -/
structure Suits (r : Respacing) (t : Text) : Prop where
  fits : r.Fits t
  feed : r.returns = true → '\n' ∈ t

/-- Where nothing is respelled nothing is asked of the script. -/
theorem suits_of_not_returns (hr : r.returns = false) (t : Text) : r.Suits t where
  fits := fits_of_not_returns hr t
  feed := by
    intro h
    rw [hr] at h
    cases h

/-- **The line break of a respaced script** is the line break of the script, spelled anew. -/
theorem lineBreak_text {t : Text} (h : r.Suits t) : lineBreak (r.text t) = r.inner (lineBreak t) := by
  cases hr : r.returns with
  | false =>
    rw [inner_of_not_returns hr, text, head, inner_of_not_returns hr, inner_of_not_returns hr,
      lineBreak_feeds]
  | true =>
    have hpair : ['\r', '\n'] <:+: r.text t := by
      obtain ⟨a, b, rfl⟩ := List.append_of_mem (h.feed hr)
      refine ⟨r.text a, r.inner b, ?_⟩
      rw [text_append, inner_cons_feed, lineEnd_of_returns hr]
      simp
    rw [lineBreak_of_not_mem (h.fits hr), inner_cons_feed, lineEnd_of_returns hr, lineBreak,
      if_pos (isPartOf_iff.mpr hpair)]
    rfl

end ChartLint.Respacing
