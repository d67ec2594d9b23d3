import PairGrammar.Proofs.Pair.Runs

/-!
# The words of joins

A reference that vanishes takes one blank with it. If there are blanks on both sides of it, one is
left, and the words are those of the plain concatenation of literals and values. Where a reference
stands beside it this may fail: the line `a _x_y b` becomes `ab` if both vanish, since each of the
two takes a blank, and with `v` for `y` it becomes `av b`, since `x` takes the only blank beside it.

`IsHarmless` names the places where a run of references leaves a blank, or where there is none or
none is needed. `Kept` is the invariant from piece to piece, and `Parted` what has to be known of
the piece behind a run.

* `words_join`: if all runs are harmless, the words are those of the plain concatenation.
* `words_join_of_lone`: this is so if literals separate references that vanish.
-/

namespace PairGrammar

open Text Piece

variable {value : Name → Option Text} {k : Nat} {p q : Piece} {ps qs run rs : List Piece}
  {done t : Text} {owed : Bool}

/-! ### Harmless runs -/

/-- The piece starts with a blank that is not dropped, whatever is owed. -/
def Piece.KeepsBlank (value : Name → Option Text) : Piece → Prop
  | literal t => startsBlank t ∧ startsBlank (dropBlank t) ∧ ¬ AllBlank t
  | reference n => startsBlank ((value n).getD [])

/-- A run of `k` references between `qs` and `rs` does not join two words. -/
inductive IsHarmless (value : Name → Option Text) (k : Nat) (qs rs : List Piece) : Prop
  /-- No word stands before the run. -/
  | first (h : AllBlank (plainAll value qs))
  /-- No word stands behind it. -/
  | last (h : AllBlank (plainAll value rs))
  /-- No blank stands beside it. -/
  | tight (hqs : endsBlank (plainAll value qs) = false)
      (hrs : startsBlank (plainAll value rs) = false)
  /-- The piece before it ends in more blanks than the run can take. -/
  | behind (p : Piece) (hp : p ∈ qs.getLast?) (h : k < trailing (p.plain value))
  /-- The piece before it ends in as many blanks as the run takes, and another blank follows. -/
  | between (p q : Piece) (hp : p ∈ qs.getLast?) (hq : q ∈ rs.head?)
      (h : k ≤ trailing (p.plain value)) (hb : startsBlank (q.plain value))
  /-- The piece that follows keeps a blank. -/
  | ahead (q : Piece) (hq : q ∈ rs.head?) (h : q.KeepsBlank value)

/-- Pieces that stand for blanks, or for nothing, leave the words as they are. -/
theorem words_joinOnto_of_allBlank (hps : AllBlank (plainAll value ps))
    (h : joinOnto value done owed ps = .ok t) : t.words = done.words := by
  fun_induction joinOnto value done owed ps with
  | case1 =>
    cases h
    rfl
  | case2 done owed u ps ih =>
    obtain ⟨hu, hps⟩ := allBlank_append.1 hps
    rw [ih hps h]
    refine AllBlank.append_words (fun c hc => hu c ?_) done
    obtain ⟨d, r, hdr, -, hr⟩ | ⟨-, hsame⟩ := dropBlank_cases u
    · cases owed with
      | false => exact hc
      | true =>
        rw [if_pos rfl, hr] at hc
        rw [Piece.plain, hdr]
        exact List.mem_cons_of_mem _ hc
    · rw [hsame, ite_self] at hc
      exact hc
  | case3 => cases h
  | case4 owed done n ps hn hb ih =>
    obtain ⟨s, c, rfl, hc⟩ := exists_of_endsBlank hb
    rw [ih (allBlank_append.1 hps).2 h, List.dropLast_concat, words_append_cons hc]
    simp
  | case5 owed done n ps hn hb ih => exact ih (allBlank_append.1 hps).2 h
  | case6 owed done n ps c r hn ih =>
    obtain ⟨hv, hps⟩ := allBlank_append.1 hps
    rw [Piece.plain, hn, Option.getD_some] at hv
    rw [ih hps h, hv.append_words]

/-! ### What is kept -/

/-- Between two pieces, with nothing owed: the text that has been joined for `qs` and their plain
concatenation have the same words, whatever follows. As far as blanks at the end matter, the text
that has been joined has those of the last piece. -/
structure Kept (value : Name → Option Text) (qs : List Piece) (done : Text) : Prop where
  words : ∀ x, Text.words (done ++ x) = Text.words (plainAll value qs ++ x)
  ends : endsBlank done → endsBlank (plainAll value qs)
  last : AllBlank (plainAll value qs) ∨
    ∀ p ∈ qs.getLast?, trailing (p.plain value) ≤ trailing done

/-- What is joined for the piece behind a run keeps the words: nothing is before the run that could
be joined to it, or it is joined as it is and what the run has taken does not matter, or a blank has
been dropped from it and another one follows. -/
inductive Parted (value : Name → Option Text) (qs : List Piece) (s b w w' : Text) : Prop
  | first (h : AllBlank (plainAll value qs)) (hw : w' = w ∨ ∃ c, isBlank c ∧ w = c :: w')
  | whole (hw : w' = w) (h : b = [] ∨ endsBlank s ∨ startsBlank w)
  | dropped (c : Char) (hc : isBlank c) (hw : w = c :: w') (h : startsBlank w')
      (hsome : ¬ AllBlank w)

theorem Parted.eq_or {s b w w' : Text} (h : Parted value qs s b w w') :
    w' = w ∨ ∃ c, isBlank c ∧ w = c :: w' := by
  cases h with
  | first _ hw => exact hw
  | whole hw _ => exact .inl hw
  | dropped c hc hw _ _ => exact .inr ⟨c, hc, hw⟩

namespace Kept

variable {s b w w' : Text}

theorem nil : Kept value [] [] := ⟨fun _ => rfl, id, .inl allBlank_nil⟩

theorem allBlank (h : Kept value qs done) (hqs : AllBlank (plainAll value qs)) : AllBlank done := by
  have hwords := h.words []
  rw [List.append_nil, List.append_nil] at hwords
  rw [← words_eq_nil_iff, hwords, words_eq_nil_iff]
  exact hqs

/-- A piece that is joined as it is. -/
theorem concat (h : Kept value qs done) (p : Piece) :
    Kept value (qs ++ [p]) (done ++ p.plain value) where
  words x := by
    rw [plainAll_append, List.append_assoc, List.append_assoc, h.words]
    simp
  ends hends := by
    rw [plainAll_append, plainAll_cons, plainAll_nil, List.append_nil]
    by_cases hp : p.plain value = []
    · rw [hp, List.append_nil] at hends ⊢
      exact h.ends hends
    · rw [endsBlank_append _ hp] at hends ⊢
      exact hends
  last := by
    refine .inr fun q hq => ?_
    rw [List.getLast?_concat] at hq
    cases hq
    exact trailing_le_append _ _

theorem words_of_parted (h : Kept value qs (s ++ b)) (hb : AllBlank b)
    (hparted : Parted value qs s b w w') (x : Text) :
    Text.words (s ++ w' ++ x) = Text.words (plainAll value qs ++ w ++ x) := by
  -- what the run has taken does not matter in front of `y`
  have hgap : ∀ y, b = [] ∨ endsBlank s ∨ startsBlank y →
      Text.words (s ++ y) = Text.words (plainAll value qs ++ y) := by
    intro y hy
    rw [← words_gap hb hy, h.words]
  rw [List.append_assoc, List.append_assoc]
  cases hparted with
  | first hqs hw =>
    have hs : AllBlank s := (allBlank_append.1 (h.allBlank hqs)).1
    rw [hs.words_append, hqs.words_append]
    rcases hw with rfl | ⟨c, hc, rfl⟩
    · rfl
    · rw [List.cons_append, words_cons_of_isBlank hc]
  | whole hw hy =>
    subst hw
    refine hgap _ ?_
    rcases hy with hy | hy | hy
    · exact .inl hy
    · exact .inr (.inl hy)
    · exact .inr (.inr (startsBlank_append hy x))
  | dropped c hc hw hy hsome =>
    have hstarts : startsBlank (w' ++ x) := startsBlank_append hy x
    have hskip : Text.words (plainAll value qs ++ [c] ++ (w' ++ x)) =
        Text.words (plainAll value qs ++ (w' ++ x)) :=
      words_gap (List.forall_mem_singleton.2 hc) (.inr (.inr hstarts))
    rw [hgap _ (.inr (.inr hstarts)), ← hskip, hw]
    simp

theorem endsBlank_of_parted (h : Kept value qs (s ++ b)) (hb : AllBlank b)
    (hparted : Parted value qs s b w w') (hends : endsBlank (s ++ w')) :
    endsBlank (plainAll value qs ++ w) := by
  by_cases hnil : w' = []
  · subst hnil
    rw [List.append_nil] at hends
    rcases hparted.eq_or with rfl | ⟨c, hc, rfl⟩
    · rw [List.append_nil]
      refine h.ends ?_
      by_cases hbnil : b = []
      · rw [hbnil, List.append_nil]
        exact hends
      · rw [endsBlank_append s hbnil]
        exact hb.endsBlank hbnil
    · rw [endsBlank_concat]
      exact hc
  · rw [endsBlank_append s hnil] at hends
    rcases hparted.eq_or with rfl | ⟨c, -, rfl⟩
    · rw [endsBlank_append _ hnil]
      exact hends
    · rw [endsBlank_append _ (List.cons_ne_nil c w'), ← List.singleton_append,
        endsBlank_append _ hnil]
      exact hends

theorem trailing_of_parted (hparted : Parted value qs s b w w') :
    AllBlank (plainAll value qs ++ w) ∨ trailing w ≤ trailing (s ++ w') := by
  by_cases hsame : w' = w
  · rw [hsame]
    exact .inr (trailing_le_append s w)
  by_cases hall : AllBlank w
  · -- no blank is dropped from a literal that is blank, unless nothing but blanks is before it
    cases hparted with
    | first hqs _ => exact .inl (allBlank_append.2 ⟨hqs, hall⟩)
    | whole hw _ => exact absurd hw hsame
    | dropped _ _ _ _ hsome => exact absurd hall hsome
  · obtain ⟨c, hc, rfl⟩ := hparted.eq_or.resolve_left hsame
    have hrest : ¬ AllBlank w' := by
      intro hall'
      rw [AllBlank, List.forall_mem_cons] at hall
      exact hall ⟨hc, hall'⟩
    have htrailing : trailing (c :: w') = trailing w' := by
      rw [← List.singleton_append, trailing_append, if_neg hrest]
    rw [htrailing]
    exact .inr (trailing_le_append s w')

/-- A piece behind a run. -/
theorem concat_run (h : Kept value qs (s ++ b)) (hb : AllBlank b)
    (hrun : ∀ p ∈ run, p.vanishes value) (hparted : Parted value qs s b (p.plain value) w') :
    Kept value (qs ++ run ++ [p]) (s ++ w') := by
  have hplain : plainAll value (qs ++ run ++ [p]) = plainAll value qs ++ p.plain value := by
    rw [plainAll_append, plainAll_append, plainAll_of_vanishes hrun]
    simp
  constructor
  · intro x
    rw [hplain]
    exact h.words_of_parted hb hparted x
  · rw [hplain]
    exact h.endsBlank_of_parted hb hparted
  · rw [hplain, List.getLast?_concat]
    refine (trailing_of_parted hparted).imp_right fun hle q hq => ?_
    cases hq
    exact hle

/-- Behind a harmless run words are parted as before it. -/
theorem parted_of_isHarmless (h : Kept value qs (s ++ b)) (hb : AllBlank b)
    (hlength : b.length = min k (trailing (s ++ b))) (hrs : ¬ AllBlank (plainAll value (p :: rs)))
    (hk : IsHarmless value k qs (p :: rs)) :
    Parted value qs s b (p.plain value) (p.joined value (decide (trailing (s ++ b) < k))) := by
  have hjoined := joined_cases value (decide (trailing (s ++ b) < k)) p
  have hwhole : k ≤ trailing (s ++ b) →
      p.joined value (decide (trailing (s ++ b) < k)) = p.plain value := by
    intro hle
    rw [decide_eq_false (by omega)]
    exact joined_of_not_owed
  have hfirst : AllBlank (plainAll value qs) →
      Parted value qs s b (p.plain value) (p.joined value (decide (trailing (s ++ b) < k))) := by
    intro hqs
    refine .first hqs ?_
    rcases hjoined with hw | ⟨-, t, c, rfl, hc, hw⟩
    · exact .inl hw
    · exact .inr ⟨c, hc, hw⟩
  cases hk with
  | first hqs => exact hfirst hqs
  | last hlast => exact absurd hlast hrs
  | tight hqs hfree =>
    have hends : endsBlank (s ++ b) = false := by
      rw [Bool.eq_false_iff]
      intro hends
      rw [h.ends hends] at hqs
      cases hqs
    have hnil : b = [] := by
      rw [trailing_eq_zero_iff.2 hends, Nat.min_zero] at hlength
      exact List.length_eq_zero_iff.1 hlength
    refine .whole ?_ (.inl hnil)
    rcases hjoined with hw | ⟨-, t, c, rfl, hc, hw⟩
    · exact hw
    · rw [plainAll_cons, plain, hw, List.cons_append, startsBlank_cons, hc] at hfree
      cases hfree
  | behind q hq hlt =>
    rcases h.last with hqs | hlast
    · exact hfirst hqs
    · have hle := hlast q hq
      have hrest := trailing_append s b
      rw [if_pos hb] at hrest
      have hpos : trailing s ≠ 0 := by omega
      have hends : endsBlank s := by
        rw [Ne, trailing_eq_zero_iff, Bool.not_eq_false] at hpos
        exact hpos
      exact .whole (hwhole (by omega)) (.inr (.inl hends))
  | between q q' hq hq' hle hblank =>
    rcases h.last with hqs | hlast
    · exact hfirst hqs
    · have hle' := hlast q hq
      cases hq'
      exact .whole (hwhole (by omega)) (.inr (.inr hblank))
  | ahead q hq hkeeps =>
    cases hq
    rcases hjoined with hw | ⟨-, t, c, rfl, hc, hw⟩
    · refine .whole hw (.inr (.inr ?_))
      cases p with
      | literal t => exact hkeeps.1
      | reference n => exact hkeeps
    · obtain ⟨-, hdrop, hsome⟩ := hkeeps
      have hdropped : dropBlank t =
          (Piece.literal t).joined value (decide (trailing (s ++ b) < k)) := by
        conv_lhs => rw [hw]
        rw [dropBlank, if_pos hc]
      rw [hdropped] at hdrop
      exact .dropped c hc hw hdrop hsome

end Kept

/-! ### Joins -/

/-- The words of a join, from a place in the line where nothing is owed. -/
theorem words_joinOnto {line : List Piece}
    (hline : ∀ qs run rs, line = qs ++ run ++ rs → IsRun value qs run rs →
      IsHarmless value run.length qs rs)
    (h : Kept value qs done) (hsplit : line = qs ++ ps)
    (hqs : ∀ p ∈ qs.getLast?, p.vanishes value = false)
    (ht : joinOnto value done false ps = .ok t) : t.words = words (plainAll value line) := by
  induction hn : ps.length using Nat.strong_induction_on generalizing qs done ps with
  | _ n ih =>
    cases ps with
    | nil =>
      cases ht
      have hwords := h.words []
      rw [hsplit]
      simpa using hwords
    | cons p ps =>
      by_cases hp : p.vanishes value
      · obtain ⟨run, rs, hps, hrun⟩ := exists_isRun hp hqs ps
        rw [hps, ← List.append_assoc] at hsplit
        have hharmless := hline qs run rs hsplit hrun
        obtain ⟨s, b, rfl, hb, hlength, hjoin⟩ :=
          joinOnto_run hrun.ne_nil hrun.vanishes done false rs
        rw [hps, hjoin] at ht
        by_cases hrs : AllBlank (plainAll value rs)
        · -- no word follows
          have hwords := h.words []
          rw [List.append_nil, List.append_nil, hb.append_words] at hwords
          rw [words_joinOnto_of_allBlank hrs ht, hsplit, plainAll_append, hrs.append_words,
            plainAll_append, plainAll_of_vanishes hrun.vanishes, List.append_nil]
          exact hwords
        · cases rs with
          | nil => exact absurd allBlank_nil hrs
          | cons q rs =>
            have hq : q.vanishes value = false := hrun.behind q rfl
            have ht := joinOnto_of_not_vanishes hq ht
            have hkept := h.concat_run hb hrun.vanishes
              (h.parted_of_isHarmless hb hlength hrs hharmless)
            refine ih rs.length ?_ hkept ?_ ?_ ht rfl
            · have hlengths := congrArg List.length hps
              rw [List.length_append, List.length_cons, List.length_cons] at hlengths
              rw [← hn, List.length_cons]
              omega
            · rw [hsplit]
              simp
            · rw [List.getLast?_concat]
              rintro _ ⟨⟩
              exact hq
      · have hp : p.vanishes value = false := by simpa using hp
        have ht := joinOnto_of_not_vanishes hp ht
        rw [joined_of_not_owed] at ht
        refine ih ps.length (by rw [← hn, List.length_cons]; omega) (h.concat p) ?_ ?_ ht rfl
        · rw [hsplit, List.append_assoc, List.singleton_append]
        · rw [List.getLast?_concat]
          rintro _ ⟨⟩
          exact hp

/-- If no run of references that vanish joins two words, then the words of a join are those of the
plain concatenation of literals and values. -/
theorem words_join
    (hline : ∀ qs run rs, ps = qs ++ run ++ rs → IsRun value qs run rs →
      IsHarmless value run.length qs rs)
    (hvalue : ∀ n, .reference n ∈ ps → (value n).isSome) :
    ∃ t, join value ps = .ok t ∧ t.words = words (plainAll value ps) := by
  obtain ⟨t, ht⟩ : ∃ t, join value ps = .ok t :=
    join_isOk fun p hp n hpn => hvalue n (by rw [← hpn]; exact hp)
  exact ⟨t, ht, words_joinOnto hline .nil rfl (by simp) ht⟩

/-- Two references may vanish side by side where there are two blanks before them. -/
theorem words_join_two_blanks :
    let value : Name → Option Text := fun n => if n = ['x'] ∨ n = ['y'] then some [] else none
    let ps : List Piece :=
      [.literal "a  ".toList, .reference ['x'], .reference ['y'], .literal " b".toList]
    (∀ qs run rs, ps = qs ++ run ++ rs → IsRun value qs run rs →
      IsHarmless value run.length qs rs) ∧
    (∀ n, .reference n ∈ ps → (value n).isSome) ∧
    ∃ t, join value ps = .ok t ∧ t.words = words (plainAll value ps) := by
  intro value ps
  have hrun : ∀ i < 5, ∀ k < 5, IsRun value (ps.take i) ((ps.drop i).take k) (ps.drop (i + k)) →
      i = 1 ∧ k = 2 := by
    decide
  have hline : ∀ qs run rs, ps = qs ++ run ++ rs → IsRun value qs run rs →
      IsHarmless value run.length qs rs := by
    intro qs run rs hsplit h
    have hlength : 4 = qs.length + (run.length + rs.length) := by
      simpa [ps] using congrArg List.length hsplit
    have hqs : ps.take qs.length = qs := by simp [hsplit]
    have hrun' : (ps.drop qs.length).take run.length = run := by simp [hsplit]
    have hrs : ps.drop (qs.length + run.length) = rs := by simp [hsplit]
    obtain ⟨hi, hk⟩ := hrun qs.length (by omega) run.length (by omega) (by rwa [hqs, hrun', hrs])
    rw [← hqs, ← hrs, hi, hk]
    exact .between _ _ rfl rfl (by decide) rfl
  have hvalue : ∀ n, .reference n ∈ ps → (value n).isSome := by
    intro n hn
    have hname : n = ['x'] ∨ n = ['y'] := by simpa [ps] using hn
    simp [value, hname]
  exact ⟨hline, hvalue, words_join hline hvalue⟩

/-! ### Runs of one reference -/

namespace Piece

/-- Between a literal and a reference there is a blank. -/
def Apart : Piece → Piece → Prop
  | literal t, reference _ => endsBlank t
  | reference _, literal t => startsBlank t
  | _, _ => True

instance : DecidableRel Apart
  | literal t, reference _ => inferInstanceAs (Decidable (endsBlank t = true))
  | reference _, literal t => inferInstanceAs (Decidable (startsBlank t = true))
  | literal _, literal _ => inferInstanceAs (Decidable True)
  | reference _, reference _ => inferInstanceAs (Decidable True)

/-- A reference that vanishes has no other reference beside it. -/
def Lone (value : Name → Option Text) (p q : Piece) : Prop :=
  (p.vanishes value → q.name? = none) ∧ (q.vanishes value → p.name? = none)

end Piece

/-- A reference that vanishes alone, with blanks around it, takes one of them only. -/
theorem isHarmless_of_lone (hapart : (qs ++ run ++ rs).IsChain Piece.Apart)
    (hlone : (qs ++ run ++ rs).IsChain (Piece.Lone value)) (h : IsRun value qs run rs) :
    IsHarmless value run.length qs rs := by
  obtain ⟨p, run, rfl⟩ := List.exists_cons_of_ne_nil h.ne_nil
  have hp : p.vanishes value := h.vanishes p List.mem_cons_self
  obtain ⟨n, rfl, -⟩ := exists_of_vanishes hp
  rw [List.append_assoc, List.cons_append] at hapart hlone
  cases run with
  | cons q run =>
    -- two references that vanish would stand side by side
    obtain ⟨m, rfl, -⟩ := exists_of_vanishes (h.vanishes q (by simp))
    obtain ⟨-, hpq, -⟩ := List.isChain_append_cons_cons.1 hlone
    cases hpq.1 hp
  | nil =>
    rw [List.nil_append] at hapart hlone
    rcases List.eq_nil_or_concat qs with rfl | ⟨qs, q, rfl⟩
    · exact .first allBlank_nil
    · cases rs with
      | nil => exact .last allBlank_nil
      | cons r rs =>
        rw [List.concat_eq_append, List.append_assoc, List.singleton_append] at hapart hlone
        obtain ⟨-, hq, hr⟩ := List.isChain_append_cons_cons.1 hapart
        obtain ⟨-, hq', hr'⟩ := List.isChain_append_cons_cons.1 hlone
        have hqn : q.name? = none := hq'.2 hp
        have hrn : r.name? = none := (List.isChain_cons_cons.1 hr').1.1 hp
        obtain ⟨t, rfl⟩ : ∃ t, q = .literal t := by
          cases q with
          | literal t => exact ⟨t, rfl⟩
          | reference m => cases hqn
        obtain ⟨u, rfl⟩ : ∃ u, r = .literal u := by
          cases r with
          | literal u => exact ⟨u, rfl⟩
          | reference m => cases hrn
        have hu : startsBlank u := (List.isChain_cons_cons.1 hr).1
        refine .between (.literal t) (.literal u) (by simp) rfl ?_ hu
        have hpos : trailing t ≠ 0 := by
          rw [Ne, trailing_eq_zero_iff, Bool.not_eq_false]
          exact hq
        show 1 ≤ trailing t
        omega

/-- If blanks stand between literals and references, and no reference that vanishes stands beside
another reference, then no words are joined. -/
theorem words_join_of_lone (hapart : ps.IsChain Piece.Apart)
    (hlone : ps.IsChain (Piece.Lone value)) (h : join value ps = .ok t) :
    t.words = words (plainAll value ps) := by
  refine words_joinOnto (fun qs run rs hsplit hrun => ?_) .nil rfl (by simp) h
  rw [hsplit] at hapart hlone
  exact isHarmless_of_lone hapart hlone hrun

example :
    let value : Name → Option Text := fun n => if n = ['x'] then some [] else some ['v']
    join value [.literal "a ".toList, .reference ['x'], .reference ['y'], .literal " b".toList] =
      .ok "av b".toList := by
  decide

/-- With a blank between literals and references, two references that vanish side by side may join
two words: each of them takes a blank. -/
theorem words_join_glued :
    let value : Name → Option Text := fun n => if n = ['x'] ∨ n = ['y'] then some [] else none
    let ps : List Piece :=
      [.literal "a ".toList, .reference ['x'], .reference ['y'], .literal " b".toList]
    ps.IsChain Piece.Apart ∧ (∀ p ∈ ps, ∀ n, p.name? = some n → (value n).isSome) ∧
      join value ps = .ok "ab".toList ∧ words "ab".toList = ["ab".toList] ∧
      words (plainAll value ps) = [['a'], ['b']] := by
  decide

end PairGrammar
