import PairGrammar.Proofs.Piece.WellFormed

/-!
# Reading is the inverse of writing

A line is read as the pieces that it is the written form of, if these are well formed, and as no
other pieces.

* `fits_of_read`: pieces that have been read fit behind what was read before them.
* `read_textAll`: pieces that fit are read back from their written form.
* `readLine_eq_ok_iff_isReading`: a content line is read as the given pieces if and only if these
  are a reading of it, and it has at most one reading.
-/

namespace PairGrammar.Piece

variable {declared : Name → Bool} {before : Option Char} {c : Char} {s t w line : Text} {n : Name}
  {ps : List Piece}

theorem startsReference_cons : startsReference before ('_' :: c :: t) =
    (!isBlank c && !before.any isLetter) := by
  simp [startsReference]

theorem not_isLetter_of_startsReference (h : startsReference before t) :
    ∀ c ∈ before, isLetter c = false := by
  rintro c rfl
  unfold startsReference at h
  split at h
  · simpa using (Bool.and_eq_true_iff.1 h).2
  · cases h

/-! ### What is read fits -/

/-- What has to be known of the characters that have been read. -/
def Mode.Sound : Mode → Prop
  | .literal _ => True
  | .name seen => ∀ c ∈ seen, isNameChar c

/-- The pieces that are read in a mode fit; the first one that is read in a name is a reference. -/
def Mode.Reads (declared : Name → Bool) : Mode → List Piece → Prop
  | .literal before, ps => Fits declared before ps
  | .name _, ps => Fits declared none ps ∧ ∃ n, ps.head? = some (reference n)

theorem fits_of_read (h0 : declared [] = false) {m : Mode} (hm : m.Sound)
    (h : read declared m t = .ok ps) : m.Reads declared ps := by
  have proper (seen : Name) (hs : ∀ c ∈ seen, isNameChar c) (hd : declared seen) :
      IsProper declared (reference seen) := by
    refine ⟨?_, hs, hd⟩
    rintro rfl
    rw [h0] at hd
    exact Bool.false_ne_true hd
  fun_induction read declared m t generalizing ps with
  | case1 =>
    cases h
    exact Fits.nil
  | case2 before c r hc ih =>
    obtain ⟨hf, n, hn⟩ := ih (by simp [Mode.Sound]) h
    obtain ⟨rs, rfl⟩ := List.head?_eq_some_iff.1 hn
    exact hf.of_reference (not_isLetter_of_startsReference hc)
  | case3 before c r hc ih =>
    obtain ⟨qs, hq, rfl⟩ := map_eq_ok h
    have hr : textAll qs = r := textAll_read hq
    exact Fits.consLiteral (ih trivial hq) (by rw [hr]; simpa using hc)
  | case4 seen =>
    obtain ⟨hd, qs, hq, rfl⟩ := consReference_eq_ok h
    cases hq
    exact ⟨fits_reference.2 ⟨proper seen hm hd, by simp, Fits.nil⟩, seen, rfl⟩
  | case5 seen c r hc ih =>
    refine ih (fun d hd => ?_) h
    rcases List.mem_append.1 hd with hd | hd
    · exact hm d hd
    · rw [List.mem_singleton.1 hd]
      exact hc
  | case6 => cases h
  | case7 seen c r hc hs glued loose =>
    obtain ⟨hd, qs, hq, rfl⟩ := consReference_eq_ok h
    refine ⟨fits_reference.2 ⟨proper seen hm hd, ?_⟩, seen, rfl⟩
    split at hq
    · obtain ⟨hf, n, hn⟩ := glued (by simp [Mode.Sound]) hq
      refine ⟨fun p hp => ?_, hf⟩
      rw [hn] at hp
      cases hp
      trivial
    · next hu =>
      obtain ⟨us, hus, rfl⟩ := map_eq_ok hq
      have hf : Fits declared none (consLiteral c us) :=
        (loose trivial hus).consLiteral (startsReference_of_ne hu)
      refine ⟨fun p hp => ?_, hf⟩
      unfold consLiteral at hp
      split at hp <;> cases hp <;> rintro d ⟨⟩ <;> exact ⟨by simpa using hc, hu⟩

/-! ### What fits is read back -/

/-- A text in front of pieces, character by character. -/
theorem foldr_consLiteral (ht : t ≠ []) (hps : ∀ u, ps.head? ≠ some (literal u)) :
    t.foldr consLiteral ps = literal t :: ps := by
  induction t with
  | nil => exact absurd rfl ht
  | cons c t ih =>
    cases t with
    | nil =>
      cases ps with
      | nil => rfl
      | cons p ps =>
        cases p with
        | literal u => exact absurd rfl (hps u)
        | reference n => rfl
    | cons d t =>
      rw [List.foldr_cons, ih (List.cons_ne_nil d t)]
      rfl

/-- An inert text is read character by character. -/
theorem read_inert (h : Inert before t w)
    (hr : read declared (.literal (t.getLast?.or before)) w = .ok ps) :
    read declared (.literal before) (t ++ w) = .ok (t.foldr consLiteral ps) := by
  induction t generalizing before with
  | nil => simpa using hr
  | cons c t ih =>
    obtain ⟨hc, ht⟩ := h
    have hr : read declared (.literal (t.getLast?.or (some c))) w = .ok ps := by
      simpa [List.getLast?_cons] using hr
    rw [List.cons_append, read, if_neg (by rw [hc]; exact Bool.false_ne_true), ih ht hr]
    rfl

/-- A name is read to its end. -/
theorem read_name (h : ∀ c ∈ t, isNameChar c) :
    read declared (.name s) (t ++ w) = read declared (.name (s ++ t)) w := by
  induction t generalizing s with
  | nil => simp
  | cons c t ih =>
    rw [List.cons_append, read, if_pos (h c List.mem_cons_self),
      ih fun d hd => h d (List.mem_cons_of_mem _ hd), List.append_assoc, List.singleton_append]

/-- Behind the name of a proper reference. -/
theorem read_of_not_isNameChar (hn : IsProper declared (reference n))
    (hc : isNameChar c = false) : read declared (.name n) (c :: t) =
      (if c = '_' then read declared (.name []) t
      else (read declared (.literal (some c)) t).map (consLiteral c)).map (reference n :: ·) := by
  rw [read, if_neg (by rw [hc]; exact Bool.false_ne_true), if_neg hn.1, consReference,
    if_pos hn.2.2]

/-- What is still to be given out for the part of a line that a mode has read. -/
def Mode.pending : Mode → List Piece
  | .literal _ => []
  | .name seen => [reference seen]

/-- The pieces fit behind the part of a line that a mode has read. -/
def Mode.Fits (declared : Name → Bool) : Mode → List Piece → Prop
  | .literal before, ps => Piece.Fits declared before ps
  | .name seen, ps => Piece.Fits declared none (reference seen :: ps)

theorem read_textAll {m : Mode} (h : m.Fits declared ps) :
    read declared m (textAll ps) = .ok (m.pending ++ ps) := by
  induction ps generalizing m with
  | nil =>
    cases m with
    | literal before => rfl
    | name n =>
      have hn : declared n := (fits_reference.1 h).1.2.2
      rw [textAll_nil, read, consReference, if_pos hn]
      rfl
  | cons p ps ih =>
    cases p with
    | literal t =>
      have key : ∀ b, Piece.Fits declared b (literal t :: ps) →
          read declared (.literal b) (t ++ textAll ps) = .ok (literal t :: ps) := by
        intro b hb
        obtain ⟨ht, hi, hf, hl⟩ := hb.of_literal
        have hr := ih (m := .literal (t.getLast?.or b)) (by
          rw [List.getLast?_eq_some_getLast ht, Option.some_or, ← List.getLast?_eq_some_getLast ht]
          exact hf)
        rw [read_inert hi hr, ← foldr_consLiteral ht hl]
        rfl
      cases m with
      | literal before => exact key before h
      | name n =>
        obtain ⟨hn, hj, hf⟩ := fits_reference.1 h
        obtain ⟨c, u, rfl⟩ := List.exists_cons_of_ne_nil hf.of_literal.1
        obtain ⟨hc, hu⟩ := hj (literal (c :: u)) rfl c rfl
        have hr := key none hf
        rw [List.cons_append, read, if_neg (by simp [startsReference_of_ne hu])] at hr
        rw [textAll_cons, text, List.cons_append, read_of_not_isNameChar hn hc, if_neg hu, hr]
        rfl
    | reference k =>
      have key : Piece.Fits declared none (reference k :: ps) →
          read declared (.name []) (k ++ textAll ps) = .ok (reference k :: ps) := by
        intro hf
        rw [read_name (fits_reference.1 hf).1.2.1]
        exact ih hf
      cases m with
      | literal before =>
        have hf : Piece.Fits declared none (reference k :: ps) := h.of_reference (by simp)
        obtain ⟨c, u, rfl⟩ := List.exists_cons_of_ne_nil (fits_reference.1 hf).1.1
        have hc : isNameChar c := (fits_reference.1 hf).1.2.1 c List.mem_cons_self
        have hs : startsReference before ('_' :: c :: (u ++ textAll ps)) := by
          rw [startsReference_cons, isBlank_eq_false_of_isNameChar hc]
          cases before with
          | none => rfl
          | some b => simp [h.entered (c :: u) rfl b rfl]
        rw [textAll_cons, text, List.cons_append, read, List.cons_append, if_pos hs]
        exact key hf
      | name n =>
        obtain ⟨hn, hj, hf⟩ := fits_reference.1 h
        rw [textAll_cons, text, List.cons_append, read_of_not_isNameChar hn rfl, if_pos rfl,
          key hf]
        rfl

theorem readLine_eq_ok_iff_read :
    readLine declared line = .ok ps ↔
      ¬ ['#', '#'] <+: line ∧ read declared (.literal none) line = .ok ps := by
  unfold readLine
  split
  · simp
  · next hl =>
    refine (and_iff_right ?_).symm
    rintro ⟨w, hw⟩
    exact hl w hw.symm

theorem readLine_of_isReading (h : IsReading declared line ps) :
    readLine declared line = .ok ps := by
  refine readLine_eq_ok_iff_read.2 ⟨h.notDoubleHash, ?_⟩
  rw [← h.written]
  exact read_textAll (m := .literal none) (wellFormed_iff_fits.1 h.wellFormed)

/-- A content line is read as the given pieces if and only if these are a reading of it; and it has
no two readings. -/
theorem readLine_eq_ok_iff_isReading (declared : Name → Bool) (h : declared [] = false)
    (line : Text) :
    (∀ ps, readLine declared line = .ok ps ↔ IsReading declared line ps) ∧
      ∀ ps qs, IsReading declared line ps → IsReading declared line qs → ps = qs := by
  refine ⟨fun ps => ⟨fun hr => ?_, readLine_of_isReading⟩, fun ps qs hp hq => ?_⟩
  · obtain ⟨hl, hm⟩ := readLine_eq_ok_iff_read.1 hr
    have hf : Fits declared none ps := fits_of_read (m := .literal none) h trivial hm
    exact ⟨textAll_readLine hr, wellFormed_iff_fits.2 hf, hl⟩
  · have := (readLine_of_isReading hp).symm.trans (readLine_of_isReading hq)
    exact Except.ok.inj this

/-- An underscore behind a letter is text, one behind a name starts a reference. -/
theorem isReading_snake_case :
    IsReading (fun n => n = ['a'] || n = ['b']) "x_a _a_b.".toList
        [literal "x_a ".toList, reference ['a'], reference ['b'], literal ".".toList] ∧
      ∀ ps, IsReading (fun n => n = ['a'] || n = ['b']) "x_a _a_b.".toList ps →
        ps = [literal "x_a ".toList, reference ['a'], reference ['b'], literal ".".toList] := by
  have h := readLine_eq_ok_iff_isReading (fun n => n = ['a'] || n = ['b']) rfl "x_a _a_b.".toList
  have hr := (h.1 [literal "x_a ".toList, reference ['a'], reference ['b'],
    literal ".".toList]).1 (by rfl)
  exact ⟨hr, fun ps hps => h.2 ps _ hps hr⟩

end PairGrammar.Piece
