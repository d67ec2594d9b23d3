import PairGrammar.Header
import PairGrammar.Proofs.Text.Words

/-!
# What is read as a header

Reading a header takes its name up to the first blank and splits the rest into words. Seen from the
line, this is a grammar: a hash sign and a name, alone or with a gap, the word `weight`, another gap
and a numeral behind them. The words behind the numeral are the one thing that the grammar does not
know of: whatever they are, they are read over.

* `readName_eq_ok_iff`, `readWeight_eq_ok_iff`: what the two parts of a header are read from.
* `read_weightedLine_append`: what becomes of a line with a numeral, whatever follows on it.
* `read_eq_ok_iff`: the lines that a header is read from.
-/

namespace PairGrammar

/-- One or more digits. -/
structure Numeral.IsNumeral (d : Text) : Prop where
  ne_nil : d ≠ []
  isDecimal : isDecimal d

theorem Numeral.IsNumeral.isWord {d : Text} (hd : IsNumeral d) : d.IsWord where
  ne_nil := hd.ne_nil
  unbroken := by
    intro c hc
    have hdigit : c.isDigit := List.all_eq_true.1 hd.isDecimal c hc
    apply isBlank_eq_false_of_isNameChar
    rw [isNameChar, hdigit, Bool.or_true]

theorem Name.IsValid.unbroken {n : Name} (hn : n.IsValid) : ∀ c ∈ n, isBlank c = false := by
  cases n with
  | nil => cases hn
  | cons a n =>
    obtain ⟨ha, hn⟩ := hn
    refine List.forall_mem_cons.2 ⟨?_, ?_⟩
    · exact isBlank_eq_false_of_isNameChar (isNameChar_of_isLetter ha)
    · intro c hc
      exact isBlank_eq_false_of_isNameChar (hn c hc)

namespace Header

open Text

variable {line s t d rest more : Text} {n : Name} {h : Header}

theorem isWord_weightWord : IsWord weightWord := isWord_of_all (by decide) (by decide)

/-! ### The name -/

theorem readName_append (hn : n.IsValid) (hr : IsCut rest) :
    readName ('#' :: (n ++ rest)) = .ok (n, rest) := by
  obtain ⟨htake, hdrop⟩ := takeWhile_append_of_isCut hn.unbroken hr
  cases n with
  | nil => cases hn
  | cons a n =>
    obtain ⟨ha, hn⟩ := hn
    have hne : a ≠ '#' := by
      rintro rfl
      cases ha
    have hfind : (a :: n).find? (!isNameChar ·) = none := by
      rw [List.find?_eq_none]
      refine List.forall_mem_cons.2 ⟨?_, ?_⟩
      · simpa using isNameChar_of_isLetter ha
      · intro c hc
        simpa using hn c hc
    rw [List.cons_append] at htake hdrop ⊢
    simp only [readName, if_neg hne, ha, Bool.not_true, Bool.false_eq_true, if_false]
    rw [htake, hdrop, hfind]

theorem eq_of_readName (h : readName line = .ok (n, rest)) :
    IsCut rest ∧ line = '#' :: (n ++ rest) := by
  unfold readName at h
  split at h
  · next t =>
    have hsplit : t.takeWhile (!isBlank ·) ++ t.dropWhile (!isBlank ·) = t :=
      List.takeWhile_append_dropWhile
    have hcut := isCut_dropWhile t
    split at h
    · cases h
    · split at h
      · cases h
      · split at h
        · cases h
        · dsimp only at h
          split at h
          · cases h
          · cases h
            exact ⟨hcut, by rw [hsplit]⟩
  · cases h

theorem readName_eq_ok_iff :
    readName line = .ok (n, rest) ↔ n.IsValid ∧ IsCut rest ∧ line = '#' :: (n ++ rest) := by
  constructor
  · intro h
    exact ⟨isValid_of_readName h, eq_of_readName h⟩
  · rintro ⟨hn, hr, rfl⟩
    exact readName_append hn hr

/-! ### The weight -/

theorem readWeight_numeral (hd : Numeral.isDecimal d) (ws : List Text) :
    readWeight (weightWord :: d :: ws) =
      if Numeral.maxLength < d.length then .error (.longNumeral d.length)
      else if maxWeight < Numeral.value d then .error (.ofFault (.weightTooBig d))
      else .ok (Numeral.value d) := by
  simp [readWeight, hd]

theorem readWeight_eq_ok_iff {ws : List Text} {w : Nat} :
    readWeight ws = .ok w ↔ ws = [] ∧ w = 1 ∨
      ∃ d vs, ws = weightWord :: d :: vs ∧ Numeral.isDecimal d ∧ d.length ≤ Numeral.maxLength ∧
        w ≤ maxWeight ∧ w = Numeral.value d := by
  constructor
  · intro h
    cases ws with
    | nil =>
      cases h
      exact .inl ⟨rfl, rfl⟩
    | cons p ws =>
      by_cases hp : p = weightWord
      · subst hp
        cases ws with
        | nil => cases h
        | cons d vs =>
          cases hd : Numeral.isDecimal d with
          | false => simp [readWeight, hd] at h
          | true =>
            rw [readWeight_numeral hd] at h
            split at h
            · cases h
            · split at h
              · cases h
              · cases h
                exact .inr ⟨d, vs, rfl, hd, by omega, by omega, rfl⟩
      · simp [readWeight, hp] at h
  · rintro (⟨rfl, rfl⟩ | ⟨d, vs, rfl, hd, hlength, hw, rfl⟩)
    · rfl
    · rw [readWeight_numeral hd, if_neg (by omega), if_neg (by omega)]

/-! ### Lines with a weight -/

/-- The line of a header with the name `n` and the numeral `d` for its weight. -/
def weightedLine (n : Name) (s t d : Text) : Text := '#' :: (n ++ (s ++ (weightWord ++ (t ++ d))))

theorem weightedLine_append (n : Name) (s t d more : Text) :
    weightedLine n s t d ++ more = '#' :: (n ++ (s ++ (weightWord ++ (t ++ (d ++ more))))) := by
  simp [weightedLine]

theorem isHeader_weightedLine (hn : n.IsValid) (s t d : Text) :
    isHeader (weightedLine n s t d) := by
  cases n with
  | nil => cases hn
  | cons a n =>
    have hne : a ≠ '#' := by
      rintro rfl
      cases hn.1
    simp [isHeader, weightedLine, emptyLine, hne]

theorem trimRight_weightedLine (n : Name) (s t : Text) (hd : Numeral.IsNumeral d) :
    (weightedLine n s t d).trimRight = weightedLine n s t d := by
  have hsplit : weightedLine n s t d = weightedLine n s t [] ++ d := by
    rw [weightedLine_append, List.nil_append, weightedLine]
  apply trimRight_of_endsBlank_eq_false
  rw [hsplit, endsBlank_append _ hd.ne_nil, hd.isWord.endsBlank_eq_false]

/-- The words behind the name. -/
theorem words_behind_name (hs : IsGap s) (ht : IsGap t) (hd : Numeral.IsNumeral d)
    (hm : IsCut more) :
    words (s ++ (weightWord ++ (t ++ (d ++ more)))) = weightWord :: d :: words more := by
  rw [hs.allBlank.words_append, isWord_weightWord.words_append (ht.isCut _),
    ht.allBlank.words_append, hd.isWord.words_append hm]

/-- A numeral decides what becomes of its line: nothing that follows has a say. -/
theorem read_weightedLine_append (hn : n.IsValid) (hs : IsGap s) (ht : IsGap t)
    (hd : Numeral.IsNumeral d) (hm : IsCut more) :
    read (weightedLine n s t d ++ more) =
      if Numeral.maxLength < d.length then .error (.longNumeral d.length)
      else if maxWeight < Numeral.value d then .error (.ofFault (.weightTooBig d))
      else .ok ⟨n, Numeral.value d⟩ := by
  rw [weightedLine_append, read, readName_append hn (hs.isCut _)]
  dsimp only
  rw [words_behind_name hs ht hd hm, readWeight_numeral hd.isDecimal]
  by_cases hlong : Numeral.maxLength < d.length
  · rw [if_pos hlong, if_pos hlong]
  · rw [if_neg hlong, if_neg hlong]
    by_cases hbig : maxWeight < Numeral.value d
    · rw [if_pos hbig, if_pos hbig]
    · rw [if_neg hbig, if_neg hbig]

theorem read_weightedLine (hn : n.IsValid) (hs : IsGap s) (ht : IsGap t)
    (hd : Numeral.IsNumeral d) :
    read (weightedLine n s t d) =
      if Numeral.maxLength < d.length then .error (.longNumeral d.length)
      else if maxWeight < Numeral.value d then .error (.ofFault (.weightTooBig d))
      else .ok ⟨n, Numeral.value d⟩ := by
  have h := read_weightedLine_append hn hs ht hd isCut_nil
  rwa [List.append_nil] at h

/-! ### The lines that a header is read from -/

/-- The line is a hash sign and a name. The weight is one. -/
inductive Plain : Header → Text → Prop
  | intro {n : Name} (hn : n.IsValid) : Plain ⟨n, 1⟩ ('#' :: n)

/-- The line is a hash sign and a name, a gap, the word `weight`, another gap and a numeral. The
weight is the number that the numeral stands for. -/
inductive Weighted : Header → Text → Prop
  | intro {n : Name} {s t d : Text} (hn : n.IsValid) (hs : IsGap s) (ht : IsGap t)
      (hd : Numeral.IsNumeral d) (hlength : d.length ≤ Numeral.maxLength)
      (hw : Numeral.value d ≤ maxWeight) : Weighted ⟨n, Numeral.value d⟩ (weightedLine n s t d)

theorem Plain.read_eq (hp : Plain h line) : read line = .ok h := by
  obtain ⟨hn⟩ := hp
  have hname := readName_append hn isCut_nil
  rw [List.append_nil] at hname
  rw [read, hname]
  rfl

theorem Weighted.read_append (hw : Weighted h line) (hm : IsCut more) :
    read (line ++ more) = .ok h := by
  obtain ⟨hn, hs, ht, hd, hlength, hw⟩ := hw
  rw [read_weightedLine_append hn hs ht hd hm, if_neg (by omega), if_neg (by omega)]

theorem exists_of_read (hr : read line = .ok h) :
    ∃ rest, readName line = .ok (h.name, rest) ∧ readWeight rest.words = .ok h.weight := by
  unfold read at hr
  split at hr
  · cases hr
  · next n rest hn =>
    split at hr
    · cases hr
    · next w hw =>
      cases hr
      exact ⟨rest, hn, hw⟩

/-- A header is read from a line of the two forms, or from one that goes on behind its numeral. -/
theorem forms_of_read (hline : endsBlank line = false) (hr : read line = .ok h) :
    Plain h line ∨ ∃ front more, Weighted h front ∧ IsCut more ∧ line = front ++ more := by
  obtain ⟨n, w⟩ := h
  obtain ⟨rest, hname, hweight⟩ := exists_of_read hr
  obtain ⟨hn, hcut, rfl⟩ := readName_eq_ok_iff.1 hname
  rcases readWeight_eq_ok_iff.1 hweight with ⟨hwords, rfl⟩ | ⟨d, vs, hwords, hd, hlength, hw, rfl⟩
  · -- without words the rest is blank, and a trimmed line does not end in blanks
    have hblank : AllBlank rest := words_eq_nil_iff.1 hwords
    have hnil : rest = [] := by
      by_contra hne
      rw [← List.cons_append, endsBlank_append _ hne, hblank.endsBlank hne] at hline
      cases hline
    subst hnil
    rw [List.append_nil]
    exact .inl ⟨hn⟩
  · obtain ⟨s, r, rfl, hs, hword, hr, hwords⟩ := exists_of_words_eq_cons hwords
    obtain ⟨t, more, rfl, ht, hdword, hm, -⟩ := exists_of_words_eq_cons hwords
    have hgap : IsGap s := hcut.isGap hs hword
    have hgap' : IsGap t := hr.isGap ht hdword
    refine .inr ⟨weightedLine n s t d, more, ?_, hm, (weightedLine_append n s t d more).symm⟩
    exact .intro hn hgap hgap' ⟨hdword.ne_nil, hd⟩ hlength hw

/-- From trimmed lines of the two forms, and from lines that go on behind the numeral of such a
form, a header is read; from all others none is. -/
theorem read_eq_ok_iff (hline : endsBlank line = false) :
    read line = .ok h ↔ Plain h line ∨ Weighted h line ∨
      ∃ front more, Weighted h front ∧ startsBlank more ∧ line = front ++ more := by
  constructor
  · intro hr
    rcases forms_of_read hline hr with hp | ⟨front, more, hw, rfl | hm, rfl⟩
    · exact .inl hp
    · rw [List.append_nil]
      exact .inr (.inl hw)
    · exact .inr (.inr ⟨front, more, hw, hm, rfl⟩)
  · rintro (hp | hw | ⟨front, more, hw, hm, rfl⟩)
    · exact hp.read_eq
    · have h := hw.read_append isCut_nil
      rwa [List.append_nil] at h
    · exact hw.read_append (.inr hm)

/-- Gaps may be of any blanks, and a numeral may start with zeros. -/
theorem read_eq_ok_iff_gaps :
    let line : Text := "#b2\tweight \u00a007".toList
    endsBlank line = false ∧ Weighted ⟨['b', '2'], 7⟩ line ∧ read line = .ok ⟨['b', '2'], 7⟩ := by
  intro line
  have hline : endsBlank line = false := by decide
  have hform : Weighted ⟨['b', '2'], 7⟩ line :=
    .intro (s := ['\t']) (t := [' ', '\u00a0']) (d := ['0', '7']) ⟨rfl, List.all_eq_true.1 rfl⟩
      (isGap_of_all (by decide) (by decide)) (isGap_of_all (by decide) (by decide))
      ⟨by decide, by decide⟩ (by decide) (by decide)
  exact ⟨hline, hform, (read_eq_ok_iff hline).2 (.inr (.inl hform))⟩

theorem isWord_of_isValid (hn : n.IsValid) : IsWord ('#' :: n) :=
  ⟨List.cons_ne_nil _ _, List.forall_mem_cons.2 ⟨by decide, hn.unbroken⟩⟩

theorem Plain.length_words (hp : Plain h line) : (words line).length = 1 := by
  obtain ⟨hn⟩ := hp
  rw [(isWord_of_isValid hn).words_eq, List.length_singleton]

theorem Weighted.length_words (hw : Weighted h line) : (words line).length = 3 := by
  obtain @⟨n, s, t, d, hn, hs, ht, hd, -, -⟩ := hw
  have hbehind := words_behind_name hs ht hd isCut_nil
  rw [List.append_nil] at hbehind
  rw [weightedLine, ← List.cons_append, (isWord_of_isValid hn).words_append (hs.isCut _), hbehind]
  rfl

/-- A word behind the numeral is read over, so the line is read although it is of neither form. -/
theorem read_behind_numeral :
    let line : Text := "#output weight 3 x".toList
    endsBlank line = false ∧ read line = .ok ⟨Name.output, 3⟩ ∧
      ¬ Plain ⟨Name.output, 3⟩ line ∧ ¬ Weighted ⟨Name.output, 3⟩ line := by
  intro line
  have hwords : (words line).length = 4 := by decide
  refine ⟨by decide, by decide, fun hp => ?_, fun hw => ?_⟩
  · have hlength := hp.length_words
    omega
  · have hlength := hw.length_words
    omega

end Header

end PairGrammar
