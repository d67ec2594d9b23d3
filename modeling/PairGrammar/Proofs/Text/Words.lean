import PairGrammar.Proofs.Text.Blanks

/-!
# Words at blanks

A blank separates the words before it from those behind it, and that is all that has to be known of
words: wherever a text has a blank, its words are those of the two parts.

* `words_append_cons`: the words of a text around a blank.
* `words_gap`: blanks between two texts do not matter if another blank stands beside them.
* `exists_of_words_eq_cons`: where the first word of a text stands.
* `trailing`: the number of blanks that a text ends in.
-/

namespace PairGrammar.Text

variable {s t b : Text} {c : Char}

/-! ### Words -/

@[simp] theorem words_nil : words [] = [] := rfl

theorem words_cons_of_isBlank (hc : isBlank c) (t : Text) : words (c :: t) = words t := by
  rw [words, if_pos hc]

theorem words_cons_ne_nil (hc : isBlank c = false) (t : Text) : words (c :: t) ≠ [] := by
  rw [words, if_neg (by rw [hc]; exact Bool.false_ne_true)]
  split
  · split <;> exact List.cons_ne_nil _ _
  · exact List.cons_ne_nil _ _

/-- A blank separates words. -/
theorem words_append_cons (hc : isBlank c) (s t : Text) :
    words (s ++ c :: t) = words s ++ words t := by
  induction s with
  | nil => exact words_cons_of_isBlank hc t
  | cons d s ih =>
    by_cases hd : isBlank d
    · rw [List.cons_append, words_cons_of_isBlank hd, words_cons_of_isBlank hd]
      exact ih
    · rw [List.cons_append, words, words, if_neg hd, if_neg hd]
      cases s with
      | nil =>
        rw [List.nil_append, words_cons_of_isBlank hc]
        cases words t <;> simp [hc]
      | cons e s =>
        rw [ih]
        cases hs : words (e :: s) with
        | cons w ws => by_cases he : isBlank e <;> simp [he]
        | nil =>
          -- without words the rest is blank
          have he : isBlank e := by
            by_contra he
            exact words_cons_ne_nil (by simpa using he) s hs
          cases words t <;> simp [he]

theorem words_append_of_startsBlank (s : Text) (ht : startsBlank t) :
    words (s ++ t) = words s ++ words t := by
  cases t with
  | nil => cases ht
  | cons c t => rw [words_append_cons ht, words_cons_of_isBlank ht]

theorem words_append_of_endsBlank (hs : endsBlank s) (t : Text) :
    words (s ++ t) = words s ++ words t := by
  obtain ⟨s, c, rfl, hc⟩ := exists_of_endsBlank hs
  rw [List.append_assoc, List.singleton_append, words_append_cons hc, words_append_cons hc,
    words_nil, List.append_nil]

/-! ### Blank texts -/

/-- The text has no character but blanks. -/
def AllBlank (t : Text) : Prop := ∀ c ∈ t, isBlank c

instance : DecidablePred AllBlank := fun t =>
  inferInstanceAs (Decidable (∀ c ∈ t, isBlank c = true))

theorem allBlank_nil : AllBlank [] := by simp [AllBlank]

theorem allBlank_append : AllBlank (s ++ t) ↔ AllBlank s ∧ AllBlank t := List.forall_mem_append

theorem words_eq_nil_iff : words t = [] ↔ AllBlank t := by
  induction t with
  | nil => exact iff_of_true rfl allBlank_nil
  | cons c t ih =>
    cases hc : isBlank c with
    | true =>
      rw [words_cons_of_isBlank hc, ih, AllBlank, AllBlank, List.forall_mem_cons]
      exact (and_iff_right hc).symm
    | false =>
      refine iff_of_false (words_cons_ne_nil hc t) fun h => ?_
      rw [h c List.mem_cons_self] at hc
      cases hc

theorem AllBlank.words_append (hs : AllBlank s) (t : Text) : words (s ++ t) = words t := by
  induction s with
  | nil => rfl
  | cons c s ih =>
    obtain ⟨hc, hs⟩ := List.forall_mem_cons.1 hs
    rw [List.cons_append, words_cons_of_isBlank hc, ih hs]

theorem AllBlank.append_words (ht : AllBlank t) (s : Text) : words (s ++ t) = words s := by
  cases t with
  | nil => rw [List.append_nil]
  | cons c t =>
    obtain ⟨hc, ht⟩ := List.forall_mem_cons.1 ht
    rw [words_append_cons hc, words_eq_nil_iff.2 ht, List.append_nil]

theorem AllBlank.endsBlank (hb : AllBlank b) (hne : b ≠ []) : endsBlank b := by
  obtain h | ⟨t, c, rfl⟩ := List.eq_nil_or_concat b
  · exact absurd h hne
  · rw [List.concat_eq_append] at hb ⊢
    rw [endsBlank_concat]
    exact hb c (by simp)

/-- Blanks between two texts do not matter where another blank stands beside them. -/
theorem words_gap (hb : AllBlank b) (h : b = [] ∨ PairGrammar.endsBlank s ∨ startsBlank t) :
    words (s ++ b ++ t) = words (s ++ t) := by
  rcases h with rfl | hs | ht
  · rw [List.append_nil]
  · rw [List.append_assoc, words_append_of_endsBlank hs, words_append_of_endsBlank hs,
      hb.words_append]
  · rw [words_append_of_startsBlank _ ht, words_append_of_startsBlank _ ht, hb.append_words]

/-! ### The first word -/

/-- The text is a single word. -/
structure IsWord (w : Text) : Prop where
  ne_nil : w ≠ []
  unbroken : ∀ c ∈ w, isBlank c = false

/-- The text is one or more blanks. -/
structure IsGap (s : Text) : Prop where
  ne_nil : s ≠ []
  allBlank : AllBlank s

theorem isWord_of_all {w : Text} (hne : w ≠ []) (h : w.all (!isBlank ·)) : IsWord w :=
  ⟨hne, fun c hc => by simpa using List.all_eq_true.1 h c hc⟩

theorem isGap_of_all (hne : s ≠ []) (h : s.all isBlank) : IsGap s := ⟨hne, List.all_eq_true.1 h⟩

/-- No word goes on into the text. -/
def IsCut (t : Text) : Prop := t = [] ∨ startsBlank t

theorem isCut_nil : IsCut [] := .inl rfl

theorem IsGap.isCut (hs : IsGap s) (t : Text) : IsCut (s ++ t) := by
  obtain ⟨hne, hs⟩ := hs
  obtain ⟨c, s, rfl⟩ := List.exists_cons_of_ne_nil hne
  exact .inr (hs c List.mem_cons_self)

theorem isCut_dropWhile (t : Text) : IsCut (t.dropWhile (!isBlank ·)) := by
  have hhead := List.head?_dropWhile_not (!isBlank ·) t
  cases h : t.dropWhile (!isBlank ·) with
  | nil => exact isCut_nil
  | cons c r =>
    rw [h] at hhead
    exact .inr (by simpa using hhead)

theorem takeWhile_append_of_isCut (hs : ∀ c ∈ s, isBlank c = false) (ht : IsCut t) :
    (s ++ t).takeWhile (!isBlank ·) = s ∧ (s ++ t).dropWhile (!isBlank ·) = t := by
  have hs' : ∀ c ∈ s, (!isBlank c) = true := by simpa using hs
  rw [List.takeWhile_append_of_pos hs', List.dropWhile_append_of_pos hs']
  rcases ht with rfl | ht
  · exact ⟨List.append_nil s, rfl⟩
  · cases t with
    | nil => cases ht
    | cons c t =>
      have hc : ¬ (!isBlank c) = true := by simpa using ht
      rw [List.takeWhile_cons, List.dropWhile_cons, if_neg hc, if_neg hc]
      exact ⟨List.append_nil s, rfl⟩

theorem IsWord.words_eq {w : Text} (hw : IsWord w) : words w = [w] := by
  obtain ⟨hne, hw⟩ := hw
  induction w with
  | nil => exact absurd rfl hne
  | cons c w ih =>
    obtain ⟨hc, hw⟩ := List.forall_mem_cons.1 hw
    rw [words, if_neg (by rw [hc]; exact Bool.false_ne_true)]
    cases w with
    | nil => rfl
    | cons d w =>
      have hd : isBlank d = false := hw d List.mem_cons_self
      rw [ih (List.cons_ne_nil _ _) hw]
      simp [hd]

theorem IsWord.endsBlank_eq_false {w : Text} (hw : IsWord w) : PairGrammar.endsBlank w = false := by
  cases h : PairGrammar.endsBlank w with
  | false => rfl
  | true =>
    obtain ⟨s, c, rfl, hc⟩ := exists_of_endsBlank h
    rw [hw.unbroken c (by simp)] at hc
    cases hc

/-- Blanks between a cut and a word are a gap. -/
theorem IsCut.isGap {w : Text} (h : IsCut (b ++ (w ++ t))) (hb : AllBlank b) (hw : IsWord w) :
    IsGap b := by
  refine ⟨?_, hb⟩
  rintro rfl
  obtain ⟨c, w, rfl⟩ := List.exists_cons_of_ne_nil hw.ne_nil
  have hc : isBlank c = false := hw.unbroken c List.mem_cons_self
  rcases h with h | h
  · cases h
  · rw [List.nil_append, List.cons_append, startsBlank_cons, hc] at h
    cases h

/-- A word that is cut off is the first one. -/
theorem IsWord.words_append {w : Text} (hw : IsWord w) (ht : IsCut t) :
    words (w ++ t) = w :: words t := by
  rcases ht with rfl | ht
  · rw [List.append_nil, hw.words_eq, words_nil]
  · rw [words_append_of_startsBlank w ht, hw.words_eq, List.singleton_append]

/-- The first word of a text stands behind blanks and is cut off. -/
theorem exists_of_words_eq_cons {w : Text} {ws : List Text} (h : words t = w :: ws) :
    ∃ b r, t = b ++ (w ++ r) ∧ AllBlank b ∧ IsWord w ∧ IsCut r ∧ words r = ws := by
  have hblank : AllBlank (t.takeWhile isBlank) := List.all_eq_true.1 List.all_takeWhile
  have hsplit : t.takeWhile isBlank ++ t.trimLeft = t := List.takeWhile_append_dropWhile
  generalize hb : t.takeWhile isBlank = b at hblank hsplit
  generalize hu : t.trimLeft = u at hsplit
  have hstart : startsBlank u = false := hu ▸ startsBlank_trimLeft t
  rw [← hsplit, hblank.words_append] at h
  have hword : IsWord (u.takeWhile (!isBlank ·)) := by
    refine ⟨?_, fun c hc => by simpa using List.all_eq_true.1 List.all_takeWhile c hc⟩
    cases u with
    | nil => cases h
    | cons c u =>
      rw [startsBlank_cons] at hstart
      simp [hstart]
  have hcut := isCut_dropWhile u
  have hparts : u.takeWhile (!isBlank ·) ++ u.dropWhile (!isBlank ·) = u :=
    List.takeWhile_append_dropWhile
  have hwords := hword.words_append hcut
  rw [hparts, h] at hwords
  obtain ⟨rfl, rfl⟩ := List.cons.inj hwords
  exact ⟨b, _, by rw [hparts, hsplit], hblank, hword, hcut, rfl⟩

/-! ### Trailing blanks -/

/-- The number of blanks that the text ends in. -/
def trailing (t : Text) : Nat := (t.reverse.takeWhile isBlank).length

@[simp] theorem trailing_nil : trailing [] = 0 := rfl

@[simp] theorem trailing_concat (s : Text) (c : Char) :
    trailing (s ++ [c]) = if isBlank c then trailing s + 1 else 0 := by
  rw [trailing, trailing, List.reverse_append, List.reverse_singleton, List.singleton_append,
    List.takeWhile_cons]
  split <;> rfl

theorem trailing_eq_zero_iff : trailing t = 0 ↔ endsBlank t = false := by
  rcases List.eq_nil_or_concat t with rfl | ⟨s, c, rfl⟩
  · exact iff_of_true rfl rfl
  · rw [List.concat_eq_append, trailing_concat, endsBlank_concat]
    cases isBlank c <;> simp

/-- What stands behind a text that is not blank decides the blanks at its end. -/
theorem trailing_append (s t : Text) :
    trailing (s ++ t) = if AllBlank t then trailing s + t.length else trailing t := by
  induction t using List.reverseRecOn with
  | nil => rw [if_pos allBlank_nil, List.append_nil, List.length_nil, Nat.add_zero]
  | append_singleton t c ih =>
    rw [← List.append_assoc, trailing_concat, trailing_concat, ih, List.length_append,
      List.length_singleton]
    have hall : AllBlank (t ++ [c]) ↔ AllBlank t ∧ isBlank c := by
      rw [allBlank_append, AllBlank, AllBlank, List.forall_mem_singleton]
    by_cases hc : isBlank c
    · by_cases ht : AllBlank t
      · rw [if_pos hc, if_pos ht, if_pos (hall.2 ⟨ht, hc⟩), Nat.add_assoc]
      · rw [if_pos hc, if_neg ht, if_neg fun h => ht (hall.1 h).1, if_pos hc]
    · rw [if_neg hc, if_neg fun h => hc (hall.1 h).2, if_neg hc]

theorem AllBlank.trailing_eq (ht : AllBlank t) : trailing t = t.length := by
  have h := trailing_append [] t
  rwa [if_pos ht, List.nil_append, trailing_nil, Nat.zero_add] at h

theorem trailing_le_append (s t : Text) : trailing t ≤ trailing (s ++ t) := by
  rw [trailing_append]
  split
  · next ht =>
    rw [ht.trailing_eq]
    omega
  · exact le_rfl

end PairGrammar.Text
