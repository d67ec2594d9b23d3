import PairGrammar.Proofs.Text.Blanks

/-!
# Joins of tidy lines

A content line in which blanks stand one by one is joined to a text of the same kind, if the values
of its references are such texts: whichever of them are empty, no blank is left at an end of the
text or beside another one.

`Continues` says what is known of the text that has been joined when the rest of the line is still
to come. A blank at its end is one of the line, and so the line goes on with something else behind
it; and a blank is owed only where the text does not end in one.

* `Continues.literal`, `Continues.value`, `Continues.drop`, `Continues.owe`: what a step does.
* `isTidy_join`: the join of a tidy line is tidy.
-/

namespace PairGrammar

open Text (IsSpaced IsTidy isSpaced_append startsBlank_of_isSpaced_cons)

/-- The text `done` may be followed by the rest of a line; `owed` says that a blank of the rest may
still be dropped. -/
structure Continues (done : Text) (owed : Bool) (rest : Text) : Prop where
  starts : startsBlank done = false
  spaced : done.IsSpaced
  gap : endsBlank done → rest ≠ [] ∧ startsBlank rest = false
  first : done = [] → owed = false → startsBlank rest = false
  owed : owed → endsBlank done = false

/-- The rest of a line in which blanks stand one by one. -/
structure IsRest (rest : Text) : Prop where
  spaced : rest.IsSpaced
  ends : endsBlank rest = false

theorem IsRest.of_append {s t : Text} (h : IsRest (s ++ t)) : IsRest t := by
  refine ⟨(isSpaced_append.1 h.spaced).2.1, ?_⟩
  by_cases ht : t = []
  · rw [ht]
    rfl
  · rw [← endsBlank_append s ht]
    exact h.ends

/-- Behind a blank a line goes on with something else. -/
theorem IsRest.of_endsBlank {s t : Text} (h : IsRest (s ++ t)) (hs : endsBlank s) :
    t ≠ [] ∧ startsBlank t = false := by
  refine ⟨?_, (isSpaced_append.1 h.spaced).2.2 hs⟩
  rintro rfl
  have hends := h.ends
  rw [List.append_nil, hs] at hends
  cases hends

namespace Continues

variable {done rest rest' t v : Text} {owed : Bool}

theorem nil (h : startsBlank rest = false) : Continues [] false rest where
  starts := rfl
  spaced := .nil
  gap := fun hb => by cases hb
  first := fun _ _ => h
  owed := fun ho => by cases ho

theorem isTidy (h : Continues done owed []) : IsTidy done := by
  refine ⟨h.starts, ?_, h.spaced⟩
  rw [Bool.eq_false_iff]
  intro hends
  exact (h.gap hends).1 rfl

/-- Behind a text that does not end in a blank anything may come, if that text is not empty or if a
blank is owed. -/
theorem of_endsBlank_eq_false (hstarts : startsBlank done = false) (hspaced : done.IsSpaced)
    (hends : endsBlank done = false) (hfirst : done = [] → owed) : Continues done owed rest where
  starts := hstarts
  spaced := hspaced
  gap := fun hb => by
    rw [hends] at hb
    cases hb
  first := fun hnil howed => by
    rw [hfirst hnil] at howed
    cases howed
  owed := fun _ => hends

/-- A text is appended that is not empty and does not start with a blank where one would come first
or stand beside another. -/
theorem append (h : Continues done owed rest) (hne : t ≠ []) (ht : t.IsSpaced)
    (hdone : done = [] ∨ endsBlank done → startsBlank t = false)
    (hgap : endsBlank t → rest' ≠ [] ∧ startsBlank rest' = false) :
    Continues (done ++ t) false rest' where
  starts := by
    cases done with
    | nil => exact hdone (.inl rfl)
    | cons c s => exact h.starts
  spaced := isSpaced_append.2 ⟨h.spaced, ht, fun hb => hdone (.inr hb)⟩
  gap := by
    rw [endsBlank_append done hne]
    exact hgap
  first := fun hnil _ => absurd (List.append_eq_nil_iff.1 hnil).2 hne
  owed := fun ho => by cases ho

/-- A literal, which is the next part of the line, from which no blank is dropped. -/
theorem literal (h : Continues done owed (t ++ rest)) (ht : t ≠ []) (hrest : IsRest (t ++ rest))
    (howed : owed → startsBlank t = false) : Continues (done ++ t) false rest := by
  have hstarts : startsBlank (t ++ rest) = startsBlank t := by
    cases t with
    | nil => exact absurd rfl ht
    | cons c r => rfl
  refine h.append ht (isSpaced_append.1 hrest.spaced).1 ?_ fun hb => hrest.of_endsBlank hb
  rintro (hnil | hb)
  · cases owed with
    | false =>
      rw [← hstarts]
      exact h.first hnil rfl
    | true => exact howed rfl
  · rw [← hstarts]
    exact (h.gap hb).2

/-- A literal that starts with the blank that is owed. -/
theorem literal_owed {c : Char} (h : Continues done true (c :: (t ++ rest)))
    (hrest : IsRest (c :: (t ++ rest))) (hc : isBlank c) : Continues (done ++ t) false rest := by
  have htail : IsRest (t ++ rest) := IsRest.of_append (s := [c]) hrest
  have hnext : startsBlank (t ++ rest) = false := startsBlank_of_isSpaced_cons hrest.spaced hc
  have hends : endsBlank done = false := h.owed rfl
  by_cases ht : t = []
  · -- the literal is nothing but the blank
    subst ht
    rw [List.append_nil]
    refine ⟨h.starts, h.spaced, fun hb => ?_, fun _ _ => hnext, fun ho => by cases ho⟩
    rw [hends] at hb
    cases hb
  · refine h.append ht (isSpaced_append.1 htail.spaced).1 (fun _ => ?_)
      fun hb => htail.of_endsBlank hb
    cases t with
    | nil => exact absurd rfl ht
    | cons d r => exact hnext

/-- A value that is not empty. -/
theorem value (h : Continues done owed rest) (hv : IsTidy v) (hne : v ≠ []) :
    Continues (done ++ v) false rest' := by
  refine h.append hne hv.spaced (fun _ => hv.starts) fun hb => ?_
  rw [hv.ends] at hb
  cases hb

/-- An empty value takes the blank in front of it. -/
theorem drop (h : Continues done owed rest) (hb : endsBlank done) :
    Continues done.dropLast false rest' := by
  obtain ⟨s, c, rfl, hc⟩ := exists_of_endsBlank hb
  obtain ⟨hspaced, -, hjoin⟩ := isSpaced_append.1 h.spaced
  have hends : endsBlank s = false := by
    rw [Bool.eq_false_iff]
    intro hs
    have hstarts := hjoin hs
    rw [startsBlank_cons, hc] at hstarts
    cases hstarts
  have hstarts := h.starts
  rw [List.dropLast_concat]
  cases s with
  | nil =>
    rw [List.nil_append, startsBlank_cons, hc] at hstarts
    cases hstarts
  | cons d s => exact of_endsBlank_eq_false hstarts hspaced hends fun hnil => by cases hnil

/-- Where there is none in front of it, it may take one of the rest. -/
theorem owe (h : Continues done owed rest) (hb : endsBlank done = false) :
    Continues done true rest' :=
  of_endsBlank_eq_false h.starts h.spaced hb fun _ => rfl

end Continues

/-! ### Joins -/

/-- The line that is joined has no empty literal, and its rest goes on as a tidy line does. -/
theorem isTidy_joinOnto {value : Name → Option Text} (hvalue : ∀ n t, value n = some t → IsTidy t)
    {ps : List Piece} {done t : Text} {owed : Bool} (h : Continues done owed (Piece.textAll ps))
    (hps : ∀ u, .literal u ∈ ps → u ≠ []) (hrest : IsRest (Piece.textAll ps))
    (ht : joinOnto value done owed ps = .ok t) : IsTidy t := by
  fun_induction joinOnto value done owed ps with
  | case1 done owed =>
    cases ht
    exact h.isTidy
  | case2 done owed u ps ih =>
    have hps' : ∀ w, .literal w ∈ ps → w ≠ [] := fun w hw => hps w (List.mem_cons_of_mem _ hw)
    have hu : u ≠ [] := hps u List.mem_cons_self
    rw [Piece.textAll_cons, Piece.text] at h hrest
    refine ih ?_ hps' hrest.of_append ht
    cases owed with
    | false => exact h.literal hu hrest fun ho => by cases ho
    | true =>
      obtain ⟨c, r, rfl, hc, hr⟩ | ⟨hf, hsame⟩ := dropBlank_cases u
      · rw [if_pos rfl, hr]
        exact h.literal_owed hrest hc
      · rw [if_pos rfl, hsame]
        exact h.literal hu hrest fun _ => hf
  | case3 => cases ht
  | case4 owed done n ps hn hb ih =>
    exact ih (h.drop hb) (fun w hw => hps w (List.mem_cons_of_mem _ hw)) hrest.of_append ht
  | case5 owed done n ps hn hb ih =>
    have hb : endsBlank done = false := by simpa using hb
    exact ih (h.owe hb) (fun w hw => hps w (List.mem_cons_of_mem _ hw)) hrest.of_append ht
  | case6 owed done n ps c r hn ih =>
    have hvalue : IsTidy (c :: r) := hvalue n _ hn
    refine ih (h.value hvalue (List.cons_ne_nil c r)) ?_ hrest.of_append ht
    exact fun w hw => hps w (List.mem_cons_of_mem _ hw)

/-- The join of a tidy line, with tidy values for its references, is tidy. -/
theorem isTidy_join {value : Name → Option Text} (hvalue : ∀ n t, value n = some t → IsTidy t)
    {ps : List Piece} (hps : ∀ u, .literal u ∈ ps → u ≠ []) (hline : IsTidy (Piece.textAll ps))
    {t : Text} (ht : join value ps = .ok t) : IsTidy t :=
  isTidy_joinOnto hvalue (.nil hline.starts) hps ⟨hline.spaced, hline.ends⟩ ht

end PairGrammar
