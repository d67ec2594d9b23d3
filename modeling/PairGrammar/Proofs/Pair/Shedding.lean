import PairGrammar.Proofs.Pair.Runs

/-!
# What is lost in a join

A join is the plain concatenation of literals and values without some of its blanks, and there is a
reference that vanishes for each blank that is lost. Where exactly they are lost is seen run by run:
`HasJoined` names the text that a line has come to behind some of its pieces.

* `Text.Sheds`: one text is another one without some of its blanks.
* `exists_sheds_joinOnto`: what is lost from any place in a line on.
* `HasJoined.append_run`, `HasJoined.literal`: what a run takes from the text before it, and from a
  literal behind it.
* `join_sheds`: what is lost in a whole line.
-/

namespace PairGrammar

open Text Piece

variable {value : Name → Option Text} {p : Piece} {ps qs run rs : List Piece} {done t : Text}
  {owed : Bool}

/-! ### Texts without some blanks -/

namespace Text

/-- `Sheds k s t`: the text `t` is `s` without `k` of its blanks. -/
inductive Sheds : Nat → Text → Text → Prop
  | nil : Sheds 0 [] []
  | keep {k : Nat} {s t : Text} (c : Char) (h : Sheds k s t) : Sheds k (c :: s) (c :: t)
  | drop {k : Nat} {s t : Text} {c : Char} (hc : isBlank c) (h : Sheds k s t) :
      Sheds (k + 1) (c :: s) t

namespace Sheds

variable {k : Nat} {r s t : Text} {c : Char}

theorem refl (t : Text) : Sheds 0 t t := by
  induction t with
  | nil => exact .nil
  | cons c t ih => exact .keep c ih

/-- One blank more may be lost anywhere. -/
theorem insert (hc : isBlank c) (h : Sheds k (s ++ r) t) : Sheds (k + 1) (s ++ c :: r) t := by
  induction s generalizing k t with
  | nil => exact .drop hc h
  | cons d s ih =>
    cases h with
    | keep _ h => exact .keep d (ih h)
    | drop hd h => exact .drop hd (ih h)

theorem length_eq (h : Sheds k s t) : s.length = t.length + k := by
  induction h with
  | nil => rfl
  | keep c _ ih =>
    rw [List.length_cons, List.length_cons, ih]
    omega
  | drop _ _ ih =>
    rw [List.length_cons, ih]
    omega

/-- All characters that are no blanks are still there, in their order. -/
theorem filter_eq (h : Sheds k s t) : t.filter (!isBlank ·) = s.filter (!isBlank ·) := by
  induction h with
  | nil => rfl
  | keep c _ ih => rw [List.filter_cons, List.filter_cons, ih]
  | drop hc _ ih => rw [ih, List.filter_cons_of_neg (by simp [hc])]

end Sheds

end Text

/-! ### From any place on -/

/-- From a place in a line on, at most one blank is lost for each reference that vanishes, and one
more if it is owed there. -/
theorem exists_sheds_joinOnto (h : joinOnto value done owed ps = .ok t) :
    ∃ k, Sheds k (done ++ plainAll value ps) t ∧
      k ≤ ps.countP (vanishes value) + owed.toNat := by
  fun_induction joinOnto value done owed ps with
  | case1 done owed =>
    cases h
    rw [plainAll_nil, List.append_nil]
    exact ⟨0, .refl _, Nat.zero_le _⟩
  | case2 done owed u ps ih =>
    obtain ⟨k, hk, hle⟩ := ih h
    rw [Bool.toNat_false, Nat.add_zero] at hle
    rw [plainAll_cons, plain, List.countP_cons_of_neg (by simp [vanishes])]
    cases owed with
    | false =>
      rw [if_neg Bool.false_ne_true, List.append_assoc] at hk
      exact ⟨k, hk, hle⟩
    | true =>
      rw [Bool.toNat_true]
      obtain ⟨c, r, rfl, hc, hr⟩ | ⟨-, hsame⟩ := dropBlank_cases u
      · rw [if_pos rfl, hr, List.append_assoc] at hk
        exact ⟨k + 1, hk.insert hc, by omega⟩
      · rw [if_pos rfl, hsame, List.append_assoc] at hk
        exact ⟨k, hk, by omega⟩
  | case3 => cases h
  | case4 owed done n ps hn hb ih =>
    -- the blank that is lost is the last character of `done`
    obtain ⟨s, c, rfl, hc⟩ := exists_of_endsBlank hb
    obtain ⟨k, hk, hle⟩ := ih h
    rw [List.dropLast_concat] at hk
    rw [Bool.toNat_false] at hle
    rw [plainAll_cons, plain, hn, Option.getD_some, List.nil_append, List.append_assoc,
      List.countP_cons_of_pos (by simp [vanishes, hn])]
    exact ⟨k + 1, hk.insert hc, by omega⟩
  | case5 owed done n ps hn hb ih =>
    obtain ⟨k, hk, hle⟩ := ih h
    rw [Bool.toNat_true] at hle
    rw [plainAll_cons, plain, hn, Option.getD_some, List.nil_append,
      List.countP_cons_of_pos (by simp [vanishes, hn])]
    exact ⟨k, hk, by omega⟩
  | case6 owed done n ps c r hn ih =>
    obtain ⟨k, hk, hle⟩ := ih h
    rw [List.append_assoc] at hk
    rw [Bool.toNat_false] at hle
    rw [plainAll_cons, plain, hn, Option.getD_some,
      List.countP_cons_of_neg (by simp [vanishes, hn])]
    exact ⟨k, hk, by omega⟩

/-! ### Place by place -/

/-- Behind the pieces `qs` of a line the text `done` has been joined, and the line goes on from
there; `owed` says whether the piece that comes next may lose its first blank. -/
def HasJoined (value : Name → Option Text) (qs : List Piece) (done : Text) (owed : Bool) : Prop :=
  ∀ us, join value (qs ++ us) = joinOnto value done owed us

/-- A piece that has a text, and does not vanish, is joined, and then nothing is owed. -/
theorem joinOnto_cons (hp : p.vanishes value = false)
    (hvalue : ∀ n, p = .reference n → (value n).isSome) (done : Text) (owed : Bool)
    (us : List Piece) :
    joinOnto value done owed (p :: us) = joinOnto value (done ++ p.joined value owed) false us := by
  cases p with
  | literal u => rfl
  | reference n =>
    obtain ⟨u, hu⟩ := Option.isSome_iff_exists.1 (hvalue n rfl)
    cases u with
    | nil => simp [vanishes, hu] at hp
    | cons c r =>
      rw [joinOnto, hu, Piece.joined, hu]
      rfl

namespace HasJoined

theorem nil (value : Name → Option Text) : HasJoined value [] [] false := fun _ => rfl

/-- What has been joined for the whole line is its join. -/
theorem join_eq (h : HasJoined value qs done owed) : join value qs = .ok done := by
  have hend := h []
  rw [List.append_nil] at hend
  exact hend

theorem concat (h : HasJoined value qs done owed) (hp : p.vanishes value = false)
    (hvalue : ∀ n, p = .reference n → (value n).isSome) :
    HasJoined value (qs ++ [p]) (done ++ p.joined value owed) false := by
  intro us
  rw [List.append_assoc, List.singleton_append, h, joinOnto_cons hp hvalue]

/-- Behind pieces that all have texts some text has been joined. -/
theorem exists_of_isSome (hvalue : ∀ n, .reference n ∈ qs → (value n).isSome) :
    ∃ done owed, HasJoined value qs done owed ∧
      ((∀ p ∈ qs.getLast?, p.vanishes value = false) → owed = false) := by
  induction qs using List.reverseRecOn with
  | nil => exact ⟨[], false, .nil value, fun _ => rfl⟩
  | append_singleton qs p ih =>
    obtain ⟨done, owed, h, -⟩ := ih fun n hn => hvalue n (List.mem_append_left _ hn)
    cases hp : p.vanishes value with
    | false =>
      refine ⟨_, _, h.concat hp fun n hn => hvalue n ?_, fun _ => rfl⟩
      simp [hn]
    | true =>
      have hlast : ¬ ∀ q ∈ (qs ++ [p]).getLast?, q.vanishes value = false := by
        simp [hp]
      obtain ⟨n, rfl, hn⟩ := exists_of_vanishes hp
      cases hb : endsBlank done with
      | true =>
        obtain ⟨s, c, rfl, hc⟩ := exists_of_endsBlank hb
        refine ⟨s, false, fun us => ?_, fun hqs => absurd hqs hlast⟩
        rw [List.append_assoc, List.singleton_append, h, joinOnto_take hn hc]
      | false =>
        refine ⟨done, true, fun us => ?_, fun hqs => absurd hqs hlast⟩
        rw [List.append_assoc, List.singleton_append, h, joinOnto_owe hn hb]

/-- A run of `k` references behind a text that ends in `w` blanks takes `min k w` of them, and if
these are less than `k` it may take one more. -/
theorem append_run (h : HasJoined value qs done owed) (hne : run ≠ [])
    (hrun : ∀ p ∈ run, p.vanishes value) :
    ∃ s b, done = s ++ b ∧ AllBlank b ∧ b.length = min run.length (trailing done) ∧
      HasJoined value (qs ++ run) s (decide (trailing done < run.length)) := by
  obtain ⟨s, b, hdone, hb, hlength, -⟩ := joinOnto_run hne hrun done owed []
  refine ⟨s, b, hdone, hb, hlength, fun us => ?_⟩
  obtain ⟨s', b', hdone', -, hlength', hjoin⟩ := joinOnto_run hne hrun done owed us
  -- the parts of `done` do not depend on what comes behind the run
  have hs : s = s' :=
    (List.append_inj' (hdone.symm.trans hdone') (hlength.trans hlength'.symm)).1
  rw [List.append_assoc, h, hjoin, hs]

/-- A literal loses its first character if that is a blank and one is owed. -/
theorem literal (h : HasJoined value qs done owed) (u : Text) :
    HasJoined value (qs ++ [.literal u])
      (done ++ if owed ∧ startsBlank u then u.tail else u) false := by
  have hjoined : (Piece.literal u).joined value owed =
      if owed ∧ startsBlank u then u.tail else u := by
    cases owed with
    | false => simp [Piece.joined]
    | true =>
      obtain ⟨c, r, rfl, hc, hr⟩ | ⟨hf, hsame⟩ := dropBlank_cases u
      · simp [Piece.joined, hc, hr]
      · simp [Piece.joined, hf, hsame]
  rw [← hjoined]
  refine h.concat rfl fun n hn => ?_
  cases hn

end HasJoined

/-! ### Whole lines -/

/-- A line whose references have values is joined, and the join is the plain concatenation without
some blanks, at most one for each reference that vanishes; all other characters stay, in order. A
run of `k` references that vanish, behind a text that ends in `w` blanks, takes `min k w` of them,
and the first character of a literal right behind it if `w` is less than `k` and that is a blank;
else it takes nothing. -/
theorem join_sheds (hvalue : ∀ n, .reference n ∈ ps → (value n).isSome) :
    ∃ t k, join value ps = .ok t ∧ Sheds k (plainAll value ps) t ∧
      (plainAll value ps).length = t.length + k ∧ k ≤ ps.countP (vanishes value) ∧
      t.filter (!isBlank ·) = (plainAll value ps).filter (!isBlank ·) ∧
      ∀ qs run rs, ps = qs ++ run ++ rs → IsRun value qs run rs →
        ∃ s b, AllBlank b ∧ b.length = min run.length (trailing (s ++ b)) ∧
          HasJoined value qs (s ++ b) false ∧
          HasJoined value (qs ++ run) s (decide (trailing (s ++ b) < run.length)) ∧
          ∀ u us, rs = .literal u :: us →
            HasJoined value (qs ++ run ++ [.literal u])
              (s ++ if trailing (s ++ b) < run.length ∧ startsBlank u then u.tail else u)
              false := by
  obtain ⟨t, ht⟩ : ∃ t, join value ps = .ok t :=
    join_isOk fun p hp n hpn => hvalue n (by rw [← hpn]; exact hp)
  obtain ⟨k, hk, hle⟩ := exists_sheds_joinOnto ht
  refine ⟨t, k, ht, hk, hk.length_eq, hle, hk.filter_eq, fun qs run rs hsplit hrun => ?_⟩
  have hqs : ∀ n, .reference n ∈ qs → (value n).isSome := by
    intro n hn
    refine hvalue n ?_
    rw [hsplit]
    exact List.mem_append_left _ (List.mem_append_left _ hn)
  obtain ⟨done, owed, hjoined, howed⟩ := HasJoined.exists_of_isSome hqs
  cases howed hrun.before
  obtain ⟨s, b, rfl, hb, hlength, hbehind⟩ := hjoined.append_run hrun.ne_nil hrun.vanishes
  refine ⟨s, b, hb, hlength, hjoined, hbehind, fun u us _ => ?_⟩
  simpa only [decide_eq_true_eq] using hbehind.literal u

/-- Two references take the blank before them and one of those behind them, and one at the end takes
the blank that the value before it ends in. -/
theorem join_sheds_three :
    let value : Name → Option Text := fun n =>
      if n = ['x'] ∨ n = ['y'] then some [] else if n = ['z'] then some "c ".toList else none
    let ps : List Piece := [.literal "a ".toList, .reference ['x'], .reference ['y'],
      .literal "  b".toList, .reference ['z'], .reference ['x'], .literal [], .literal " d".toList]
    (∀ n, .reference n ∈ ps → (value n).isSome) ∧ plainAll value ps = "a   bc  d".toList ∧
      join value ps = .ok "a bc d".toList ∧ Sheds 3 "a   bc  d".toList "a bc d".toList ∧
      3 ≤ ps.countP (vanishes value) ∧
      HasJoined value (ps.take 1) "a ".toList false ∧
      HasJoined value (ps.take 3) "a".toList true ∧
      HasJoined value (ps.take 4) "a b".toList false := by
  intro value ps
  have hvalue : ∀ n, .reference n ∈ ps → (value n).isSome := by
    intro n hn
    have hname : n = ['x'] ∨ n = ['y'] ∨ n = ['z'] ∨ n = ['x'] := by simpa [ps] using hn
    rcases hname with rfl | rfl | rfl | rfl <;> rfl
  have hplain : plainAll value ps = "a   bc  d".toList := by decide
  have hjoin : join value ps = .ok "a bc d".toList := by decide
  obtain ⟨t, k, ht, hk, hlength, hle, -, hruns⟩ := join_sheds hvalue
  rw [hjoin] at ht
  cases ht
  rw [hplain] at hk hlength
  obtain rfl : k = 3 := Nat.add_left_cancel (n := 6) hlength.symm
  obtain ⟨s, b, -, hb, hbefore, hbehind, hliteral⟩ :=
    hruns (ps.take 1) [.reference ['x'], .reference ['y']] (ps.drop 3) rfl (by decide)
  have hdone : s ++ b = "a ".toList := by
    have hfirst : join value (ps.take 1) = .ok "a ".toList := by decide
    rw [hbefore.join_eq] at hfirst
    exact Except.ok.inj hfirst
  rw [hdone] at hb hbefore hbehind hliteral
  have hs : s = ['a'] := (List.append_inj' hdone hb).1
  subst hs
  exact ⟨hvalue, hplain, hjoin, hk, hle, hbefore, hbehind, hliteral _ _ rfl⟩

end PairGrammar
