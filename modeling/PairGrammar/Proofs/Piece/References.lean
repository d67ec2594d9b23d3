import PairGrammar.Proofs.Piece.Reading

/-!
# References of a line, and the first one at fault

A reference is at fault if it has no name, or one that is not declared. A line that does not start
with two hash signs is refused if one of its references is at fault, and for the first of these.
Which references a line has is said without reading it: an underscore starts one by what stands
around it, or because it stands right behind the name of another one.

* `Refers.split`: references lie one behind the other.
* `Stands.literal_step`, `Stands.name_end`: no reference that has been read over is at fault.
* `Stands.exists_first`, `Stands.not_isFaulty`: how reading ends.
* `readLine_refused_iff`: which lines are refused, and for what.
-/

namespace PairGrammar.Piece

variable {declared : Name → Bool} {line s t r s' r' : Text} {c : Char} {n : Name} {m : Mode}
  {f : Fault}

/-! ### References of a line -/

/-- Behind the text `s` an underscore starts a reference, and `r` is what follows the underscore. -/
inductive Starts : (s r : Text) → Prop
  | free {s r : Text} (h : startsReference s.getLast? ('_' :: r)) : Starts s r
  | glued {s n r : Text} (h : Starts s (n ++ '_' :: r)) (hne : n ≠ [])
      (hn : ∀ c ∈ n, isNameChar c) : Starts (s ++ '_' :: n) r

/-- The name that stands in front of a text: its letters and digits up to any other character. -/
def nameOf (r : Text) : Name := r.takeWhile isNameChar

/-- A reference of the line stands behind `s`, and `r` is what follows its underscore. -/
structure Refers (line s r : Text) : Prop where
  line_eq : line = s ++ '_' :: r
  starts : Starts s r

/-- The reference has no name, or one that is not declared. -/
def IsFaulty (declared : Name → Bool) (r : Text) : Prop :=
  nameOf r = [] ∨ declared (nameOf r) = false

/-- The leftmost reference of the line that is at fault. -/
structure IsFirstFault (declared : Name → Bool) (line s r : Text) : Prop where
  refers : Refers line s r
  faulty : IsFaulty declared r
  first : ∀ s' r', Refers line s' r' → IsFaulty declared r' → s.length ≤ s'.length

/-- What a reference at fault is reported as. The name that is missing at the very end of a line is
reported as one that is not declared. -/
def blame (r : Text) : Fault :=
  if nameOf r = [] ∧ r ≠ [] then .reservedName else .undefinedVariable (nameOf r)

/-! ### Names -/

theorem nameOf_append (hn : ∀ c ∈ n, isNameChar c) : nameOf (n ++ t) = n ++ nameOf t :=
  List.takeWhile_append_of_pos hn

theorem nameOf_cons (hc : isNameChar c = false) : nameOf (c :: t) = [] := by
  rw [nameOf, List.takeWhile_cons, hc]
  rfl

theorem nameOf_append_cons (hn : ∀ c ∈ n, isNameChar c) (hc : isNameChar c = false) :
    nameOf (n ++ c :: t) = n := by
  rw [nameOf_append hn, nameOf_cons hc, List.append_nil]

theorem nameOf_of_all (hn : ∀ c ∈ n, isNameChar c) : nameOf n = n := by
  simpa [nameOf] using nameOf_append (t := []) hn

theorem length_nameOf_le (n t : Text) (hc : isNameChar c = false) :
    (nameOf (n ++ c :: t)).length ≤ n.length := by
  induction n with
  | nil => simp [nameOf_cons hc]
  | cons d n ih =>
    rw [nameOf, List.cons_append, List.takeWhile_cons]
    split
    · simp only [List.length_cons]
      have hle : (nameOf (n ++ c :: t)).length ≤ n.length := ih
      rw [nameOf] at hle
      omega
    · simp

theorem isNameChar_underscore : isNameChar '_' = false := by decide

/-! ### References one behind the other -/

namespace Refers

theorem eq_of_length (h : Refers line s r) (h' : Refers line s' r') (hlen : s.length = s'.length) :
    s = s' ∧ r = r' := by
  have heq : s ++ '_' :: r = s' ++ '_' :: r' := h.line_eq.symm.trans h'.line_eq
  obtain ⟨hs, hr⟩ := List.append_inj heq hlen
  exact ⟨hs, (List.cons.inj hr).2⟩

theorem split (h : Refers line s r) (h' : Refers line s' r') (hlt : s.length < s'.length) :
    ∃ w, s' = s ++ '_' :: w ∧ r = w ++ '_' :: r' := by
  have heq : s ++ '_' :: r = s' ++ '_' :: r' := h.line_eq.symm.trans h'.line_eq
  rcases List.append_eq_append_iff.1 heq with ⟨u, rfl, hu⟩ | ⟨u, rfl, -⟩
  · cases u with
    | nil =>
      rw [List.append_nil] at hlt
      omega
    | cons d w =>
      obtain ⟨rfl, hr⟩ := List.cons.inj hu
      exact ⟨w, rfl, hr⟩
  · rw [List.length_append] at hlt
    omega

/-- The name of a reference ends in front of the next one. -/
theorem end_le (h : Refers line s r) (h' : Refers line s' r') (hlt : s.length < s'.length) :
    s.length + 1 + (nameOf r).length ≤ s'.length := by
  obtain ⟨w, rfl, rfl⟩ := h.split h' hlt
  have hle : (nameOf (w ++ '_' :: r')).length ≤ w.length :=
    length_nameOf_le w r' isNameChar_underscore
  rw [List.length_append, List.length_cons]
  omega

theorem length_lt (h : Refers line s r) : s.length < line.length := by
  rw [h.line_eq, List.length_append, List.length_cons]
  omega

end Refers

theorem IsFirstFault.unique (h : IsFirstFault declared line s r)
    (h' : IsFirstFault declared line s' r') : r = r' := by
  have hle : s.length ≤ s'.length := h.first s' r' h'.refers h'.faulty
  have hge : s'.length ≤ s.length := h'.first s r h.refers h.faulty
  exact (h.refers.eq_of_length h'.refers (by omega)).2

/-! ### Reading over references -/

/-- What is known where a mode has come to, `t` being what is left of the line: no reference behind
which it has come is at fault, and in a literal the names of these have ended. -/
inductive Stands (declared : Name → Bool) (line : Text) : Mode → (t : Text) → Prop
  | literal {s t : Text} (hline : line = s ++ t)
      (hread : ∀ s' r', Refers line s' r' → s'.length < s.length →
        ¬ IsFaulty declared r' ∧ s'.length + 1 + (nameOf r').length < s.length) :
      Stands declared line (.literal s.getLast?) t
  | name {s seen t : Text} (hrefers : Refers line s (seen ++ t)) (hseen : ∀ c ∈ seen, isNameChar c)
      (hread : ∀ s' r', Refers line s' r' → s'.length < s.length → ¬ IsFaulty declared r') :
      Stands declared line (.name seen) t

namespace Stands

theorem start (declared : Name → Bool) (line : Text) :
    Stands declared line (.literal none) line := by
  apply literal (s := []) rfl
  intro s' r' _ hlt
  exact absurd hlt (Nat.not_lt_zero _)

theorem name_start {before : Option Char} (h : Stands declared line (.literal before) (c :: r))
    (hc : startsReference before (c :: r)) : Stands declared line (.name []) r := by
  obtain rfl : c = '_' := by
    by_contra hne
    rw [startsReference_of_ne hne] at hc
    cases hc
  cases h with
  | literal hline hread =>
    refine name ⟨hline, .free hc⟩ ?_ fun s' r' h' hlt => (hread s' r' h' hlt).1
    simp

/-- A character that starts no reference is read over. -/
theorem literal_step {before : Option Char}
    (h : Stands declared line (.literal before) (c :: r))
    (hc : startsReference before (c :: r) = false) :
    Stands declared line (.literal (some c)) r := by
  cases h with
  | @literal s _ hline hread =>
    rw [← List.getLast?_concat (l := s)]
    refine literal (by simpa using hline) fun s' r' h' hlt => ?_
    rw [List.length_append, List.length_singleton] at hlt ⊢
    have hne : s'.length ≠ s.length := by
      intro hlen
      have heq : s ++ c :: r = s' ++ '_' :: r' := hline.symm.trans h'.line_eq
      obtain ⟨rfl, hr⟩ := List.append_inj heq hlen.symm
      obtain ⟨rfl, rfl⟩ := List.cons.inj hr
      cases h'.starts with
      | free hfree =>
        rw [hc] at hfree
        cases hfree
      | @glued s₀ n _ hs₀ _ hn =>
        -- a reference whose name ends here would have been read before
        have h₀ : Refers line s₀ (n ++ '_' :: r) := by
          refine ⟨?_, hs₀⟩
          rw [hline, List.append_assoc]
          rfl
        have hlt₀ := (hread s₀ _ h₀ (by simp)).2
        rw [nameOf_append_cons hn isNameChar_underscore, List.length_append, List.length_cons]
          at hlt₀
        omega
    obtain ⟨hsound, hend⟩ := hread s' r' h' (by omega)
    exact ⟨hsound, by omega⟩

theorem name_step (h : Stands declared line (.name n) (c :: r)) (hc : isNameChar c) :
    Stands declared line (.name (n ++ [c])) r := by
  cases h with
  | @name s _ _ hrefers hn hread =>
    refine name ?_ ?_ hread
    · rw [List.append_assoc]
      exact hrefers
    · intro d hd
      rcases List.mem_append.1 hd with hd | hd
      · exact hn d hd
      · rw [List.mem_singleton.1 hd]
        exact hc

/-- Behind the declared name of a reference. -/
theorem name_end (h : Stands declared line (.name n) (c :: r)) (hc : isNameChar c = false)
    (hne : n ≠ []) (hd : declared n) :
    Stands declared line (if c = '_' then .name [] else .literal (some c)) r := by
  cases h with
  | @name s _ _ hrefers hn hread =>
    have hname : nameOf (n ++ c :: r) = n := nameOf_append_cons hn hc
    have hsound : ¬ IsFaulty declared (n ++ c :: r) := by
      rw [IsFaulty, hname, hd]
      simp [hne]
    -- the references in front of what follows the name
    have hfront : ∀ s' r', Refers line s' r' → s'.length < s.length + 1 + n.length →
        ¬ IsFaulty declared r' ∧ s'.length + 1 + (nameOf r').length ≤ s.length + 1 + n.length := by
      intro s' r' h' hlt
      rcases Nat.lt_trichotomy s'.length s.length with hbefore | hsame | hbehind
      · have hend := h'.end_le hrefers hbefore
        exact ⟨hread s' r' h' hbefore, by omega⟩
      · obtain ⟨rfl, rfl⟩ := h'.eq_of_length hrefers hsame
        rw [hname]
        exact ⟨hsound, Nat.le_refl _⟩
      · have hend := hrefers.end_le h' hbehind
        rw [hname] at hend
        omega
    have hline : line = (s ++ '_' :: n) ++ c :: r := by
      rw [hrefers.line_eq, List.append_assoc]
      rfl
    have hlength : (s ++ '_' :: n).length = s.length + 1 + n.length := by
      rw [List.length_append, List.length_cons]
      omega
    by_cases hu : c = '_'
    · subst hu
      rw [if_pos rfl]
      refine name ⟨hline, .glued hrefers.starts hne hn⟩ (by simp) fun s' r' h' hlt => ?_
      exact (hfront s' r' h' (by omega)).1
    · rw [if_neg hu, ← List.getLast?_concat (l := s ++ '_' :: n)]
      refine literal (by simpa using hline) fun s' r' h' hlt => ?_
      rw [List.length_append, List.length_singleton, hlength] at hlt ⊢
      have hne' : s'.length ≠ s.length + 1 + n.length := by
        intro hlen
        have heq : (s ++ '_' :: n) ++ c :: r = s' ++ '_' :: r' := hline.symm.trans h'.line_eq
        obtain ⟨-, hr⟩ := List.append_inj heq (hlength.trans hlen.symm)
        exact hu (List.cons.inj hr).1
      obtain ⟨hsound', hend⟩ := hfront s' r' h' (by omega)
      exact ⟨hsound', by omega⟩

/-- A reference that is at fault where reading has come to is the first such one. -/
theorem isFirstFault (h : Stands declared line (.name n) t) (hf : IsFaulty declared (n ++ t)) :
    ∃ s, IsFirstFault declared line s (n ++ t) := by
  cases h with
  | @name s _ _ hrefers hn hread =>
    refine ⟨s, hrefers, hf, fun s' r' h' hf' => ?_⟩
    by_contra hlt
    exact hread s' r' h' (by omega) hf'

/-- At the end of a line all references are behind. -/
theorem not_isFaulty_of_literal {before : Option Char}
    (h : Stands declared line (.literal before) []) (hr : Refers line s r) :
    ¬ IsFaulty declared r := by
  cases h with
  | @literal s₀ _ hline hread =>
    refine (hread s r hr ?_).1
    have hlt := hr.length_lt
    rw [hline, List.append_nil] at hlt
    exact hlt

theorem isNameChar_of_mem (h : Stands declared line (.name n) t) : ∀ c ∈ n, isNameChar c := by
  cases h with
  | name _ hn _ => exact hn

theorem not_isFaulty_of_name (h : Stands declared line (.name n) []) (hne : n ≠ [])
    (hd : declared n) (hr : Refers line s r) : ¬ IsFaulty declared r := by
  cases h with
  | @name s₀ _ _ hrefers hn hread =>
    rw [List.append_nil] at hrefers
    have hname : nameOf n = n := nameOf_of_all hn
    rcases Nat.lt_trichotomy s.length s₀.length with hbefore | hsame | hbehind
    · exact hread s r hr hbefore
    · obtain ⟨-, rfl⟩ := hr.eq_of_length hrefers hsame
      rw [IsFaulty, hname, hd]
      simp [hne]
    · have hend := hrefers.end_le hr hbehind
      have hlt := hr.length_lt
      rw [hrefers.line_eq, List.length_append, List.length_cons] at hlt
      rw [hname] at hend
      omega

/-- Where reading fails it has come to the first reference at fault. -/
theorem exists_first (h : Stands declared line m t) (hr : read declared m t = .error f) :
    ∃ s r, IsFirstFault declared line s r ∧ f = blame r := by
  fun_induction read declared m t with
  | case1 => cases hr
  | case2 before c r hc ih => exact ih (h.name_start hc) hr
  | case3 before c r hc ih => exact ih (h.literal_step (by simpa using hc)) (map_eq_error hr)
  | case4 n =>
    rcases consReference_eq_error hr with ⟨hd, rfl⟩ | ⟨-, hr⟩
    · have hn : nameOf n = n := nameOf_of_all h.isNameChar_of_mem
      obtain ⟨s, hs⟩ := h.isFirstFault (.inr (by rw [List.append_nil, hn]; exact hd))
      rw [List.append_nil] at hs
      refine ⟨s, n, hs, ?_⟩
      rw [blame, hn, if_neg (by simp)]
    · cases hr
  | case5 n c r hc ih => exact ih (h.name_step hc) hr
  | case6 c r hc =>
    cases hr
    have hn : nameOf (c :: r) = [] := nameOf_cons (by simpa using hc)
    obtain ⟨s, hs⟩ := h.isFirstFault (.inl hn)
    refine ⟨s, c :: r, hs, ?_⟩
    rw [blame, if_pos ⟨hn, List.cons_ne_nil c r⟩]
  | case7 n c r hc hne glued loose =>
    have hc : isNameChar c = false := by simpa using hc
    rcases consReference_eq_error hr with ⟨hd, rfl⟩ | ⟨hd, hr⟩
    · have hn : nameOf (n ++ c :: r) = n := nameOf_append_cons h.isNameChar_of_mem hc
      obtain ⟨s, hs⟩ := h.isFirstFault (.inr (by rw [hn]; exact hd))
      refine ⟨s, n ++ c :: r, hs, ?_⟩
      rw [blame, hn, if_neg (by simp [hne])]
    · have hend := h.name_end hc hne hd
      split at hr
      · next hu =>
        rw [if_pos hu] at hend
        exact glued hend hr
      · next hu =>
        rw [if_neg hu] at hend
        exact loose hend (map_eq_error hr)

/-- A line that has been read to its end has no reference at fault. -/
theorem not_isFaulty (h0 : declared [] = false) (h : Stands declared line m t) {ps : List Piece}
    (hr : read declared m t = .ok ps) (hs : Refers line s r) : ¬ IsFaulty declared r := by
  fun_induction read declared m t generalizing ps with
  | case1 => exact h.not_isFaulty_of_literal hs
  | case2 before c r hc ih => exact ih (h.name_start hc) hr
  | case3 before c r hc ih =>
    obtain ⟨qs, hq, -⟩ := map_eq_ok hr
    exact ih (h.literal_step (by simpa using hc)) hq
  | case4 n =>
    obtain ⟨hd, -⟩ := consReference_eq_ok hr
    refine h.not_isFaulty_of_name ?_ hd hs
    rintro rfl
    rw [h0] at hd
    cases hd
  | case5 n c r hc ih => exact ih (h.name_step hc) hr
  | case6 => cases hr
  | case7 n c r hc hne glued loose =>
    obtain ⟨hd, qs, hq, -⟩ := consReference_eq_ok hr
    have hend := h.name_end (by simpa using hc) hne hd
    split at hq
    · next hu =>
      rw [if_pos hu] at hend
      exact glued hend hq
    · next hu =>
      rw [if_neg hu] at hend
      obtain ⟨us, hus, -⟩ := map_eq_ok hq
      exact loose hend hus

end Stands

/-! ### Lines that are refused -/

theorem readLine_of_not_doubleHash (h : ¬ ['#', '#'] <+: line) :
    readLine declared line = read declared (.literal none) line := by
  unfold readLine
  split
  · next w => exact absurd ⟨w, rfl⟩ h
  · rfl

/-- A line is refused for two hash signs if it starts with them, and any other line if one of its
references is at fault. It is then refused for the first of these: for a name that is missing, or
for the name that is not declared. A name that is missing at the end of the line counts as one that
is not declared. -/
theorem readLine_refused_iff (h0 : declared [] = false) (line : Text) :
    ((∃ f, readLine declared line = .error f ∧ f.kind = .doubleHash) ↔ ['#', '#'] <+: line) ∧
    (¬ ['#', '#'] <+: line →
      ((∃ f, readLine declared line = .error f) ↔ ∃ s r, Refers line s r ∧ IsFaulty declared r) ∧
      ∀ s r, IsFirstFault declared line s r →
        (nameOf r = [] → r ≠ [] → readLine declared line = .error .reservedName) ∧
        (nameOf r ≠ [] ∨ r = [] →
          readLine declared line = .error (.undefinedVariable (nameOf r)))) := by
  have hstart : Stands declared line (.literal none) line := .start declared line
  have hfirst : ¬ ['#', '#'] <+: line → ∀ f, readLine declared line = .error f →
      ∃ s r, IsFirstFault declared line s r ∧ f = blame r := by
    intro hline f hf
    rw [readLine_of_not_doubleHash hline] at hf
    exact hstart.exists_first hf
  have hfails : ¬ ['#', '#'] <+: line → ∀ s r, Refers line s r → IsFaulty declared r →
      ∃ f, readLine declared line = .error f := by
    intro hline s r hs hr
    cases hread : readLine declared line with
    | error f => exact ⟨f, rfl⟩
    | ok ps =>
      rw [readLine_of_not_doubleHash hline] at hread
      exact absurd hr (hstart.not_isFaulty h0 hread hs)
  refine ⟨⟨?_, ?_⟩, fun hline => ⟨⟨?_, ?_⟩, fun s r hs => ?_⟩⟩
  · rintro ⟨f, hf, hkind⟩
    by_contra hline
    obtain ⟨s, r, -, rfl⟩ := hfirst hline f hf
    unfold blame at hkind
    split at hkind
    · cases hkind
    · cases hkind
  · rintro ⟨w, rfl⟩
    exact ⟨_, rfl, rfl⟩
  · rintro ⟨f, hf⟩
    obtain ⟨s, r, hs, -⟩ := hfirst hline f hf
    exact ⟨s, r, hs.refers, hs.faulty⟩
  · rintro ⟨s, r, hs, hr⟩
    exact hfails hline s r hs hr
  · have hblame : readLine declared line = .error (blame r) := by
      obtain ⟨f, hf⟩ := hfails hline s r hs.refers hs.faulty
      obtain ⟨s', r', hs', rfl⟩ := hfirst hline f hf
      rw [hf, hs.unique hs']
    constructor
    · intro hn hr
      rw [hblame, blame, if_pos ⟨hn, hr⟩]
    · intro hn
      rw [hblame, blame, if_neg]
      rintro ⟨hn', hr⟩
      exact hn.elim (fun h => h hn') hr

/-- A reference at fault that stands right behind the name of a sound one, with which the line
starts. -/
theorem isFirstFault_glued (hne : n ≠ []) (hn : ∀ c ∈ n, isNameChar c) (hd : declared n)
    (hr : IsFaulty declared r) :
    IsFirstFault declared ('_' :: (n ++ '_' :: r)) ('_' :: n) r := by
  have hname : nameOf (n ++ '_' :: r) = n := nameOf_append_cons hn isNameChar_underscore
  have hstart : Refers ('_' :: (n ++ '_' :: r)) [] (n ++ '_' :: r) := by
    refine ⟨rfl, .free ?_⟩
    obtain ⟨c, w, rfl⟩ := List.exists_cons_of_ne_nil hne
    have hc : isNameChar c := hn c List.mem_cons_self
    rw [List.cons_append, startsReference_cons, isBlank_eq_false_of_isNameChar hc]
    rfl
  refine ⟨⟨rfl, .glued (s := []) hstart.starts hne hn⟩, hr, fun s' r' h' hr' => ?_⟩
  rcases Nat.eq_zero_or_pos s'.length with hzero | hpos
  · obtain ⟨-, rfl⟩ := hstart.eq_of_length h' hzero.symm
    rw [IsFaulty, hname, hd] at hr'
    simp [hne] at hr'
  · have hend := hstart.end_le h' hpos
    rw [hname, List.length_nil] at hend
    rw [List.length_cons]
    omega

/-- The second underscore has no name, and the third one stands behind it. -/
theorem readLine_refused_glued :
    let declared : Name → Bool := fun n => n = ['a']
    declared [] = false ∧ ¬ ['#', '#'] <+: "_a__b _c".toList ∧
      IsFirstFault declared "_a__b _c".toList ['_', 'a'] "_b _c".toList ∧
      readLine declared "_a__b _c".toList = .error .reservedName := by
  intro declared
  have hline : ¬ ['#', '#'] <+: "_a__b _c".toList := by decide
  have hfirst : IsFirstFault declared ('_' :: (['a'] ++ '_' :: "_b _c".toList)) ['_', 'a']
      "_b _c".toList :=
    isFirstFault_glued (by simp) (List.forall_mem_singleton.2 rfl) rfl (.inl rfl)
  exact ⟨rfl, hline, hfirst,
    (((readLine_refused_iff rfl _).2 hline).2 _ _ hfirst).1 rfl (by decide)⟩

/-- A name that is missing at the end of the line is not reported as a reserved one. -/
theorem readLine_glued_end :
    let declared : Name → Bool := fun n => n = ['a']
    ¬ ['#', '#'] <+: "_a_".toList ∧ IsFirstFault declared "_a_".toList ['_', 'a'] [] ∧
      nameOf [] = [] ∧ readLine declared "_a_".toList = .error (.undefinedVariable []) ∧
      readLine declared "_a_".toList ≠ .error .reservedName := by
  intro declared
  have hfirst : IsFirstFault declared ('_' :: (['a'] ++ '_' :: [])) ['_', 'a'] [] :=
    isFirstFault_glued (by simp) (List.forall_mem_singleton.2 rfl) rfl (.inl rfl)
  have hread : readLine declared "_a_".toList = .error (.undefinedVariable []) := rfl
  refine ⟨by decide, hfirst, rfl, hread, ?_⟩
  rw [hread]
  intro h
  cases h

end PairGrammar.Piece
