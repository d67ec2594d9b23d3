import PairGrammar.Proofs.Text.Words

/-!
# Runs of references that vanish

A reference vanishes if its value is empty. References that vanish side by side make up a run, and
a line is joined by taking one piece that does not vanish after the other, and each run as a whole.

* `joinOnto_of_not_vanishes`: what is joined for a piece that does not vanish.
* `exists_isRun`: a piece that vanishes behind one that does not is the first one of a run.
* `joinOnto_run`: what a run takes from the text before it, and whether it may still take more.
-/

namespace PairGrammar

open Text

variable {value : Name → Option Text} {p : Piece} {ps qs run rs : List Piece} {done t : Text}
  {owed : Bool}

namespace Piece

/-- What a piece stands for: a literal for itself, a reference for its value. -/
def plain (value : Name → Option Text) : Piece → Text
  | literal t => t
  | reference n => (value n).getD []

/-- The plain concatenation of literals and values. -/
def plainAll (value : Name → Option Text) (ps : List Piece) : Text := ps.flatMap (plain value)

/-- A reference whose value is empty. -/
def vanishes (value : Name → Option Text) : Piece → Bool
  | literal _ => false
  | reference n => value n = some []

/-- What is joined for a piece that does not vanish. -/
def joined (value : Name → Option Text) (owed : Bool) : Piece → Text
  | literal t => if owed then dropBlank t else t
  | reference n => (value n).getD []

@[simp] theorem plainAll_nil : plainAll value [] = [] := rfl

@[simp] theorem plainAll_cons (p : Piece) (ps : List Piece) :
    plainAll value (p :: ps) = p.plain value ++ plainAll value ps := rfl

@[simp] theorem plainAll_append (ps qs : List Piece) :
    plainAll value (ps ++ qs) = plainAll value ps ++ plainAll value qs := by
  simp [plainAll]

theorem exists_of_vanishes (h : p.vanishes value) : ∃ n, p = reference n ∧ value n = some [] := by
  cases p with
  | literal t => cases h
  | reference n => exact ⟨n, rfl, by simpa [vanishes] using h⟩

theorem plainAll_of_vanishes (h : ∀ p ∈ ps, p.vanishes value) : plainAll value ps = [] := by
  induction ps with
  | nil => rfl
  | cons p ps ih =>
    obtain ⟨hp, hps⟩ := List.forall_mem_cons.1 h
    obtain ⟨n, rfl, hn⟩ := exists_of_vanishes hp
    rw [plainAll_cons, ih hps, plain, hn]
    rfl

theorem joined_of_not_owed : p.joined value false = p.plain value := by
  cases p <;> rfl

/-- What is joined is what the piece stands for, or all of it but the blank that is owed. -/
theorem joined_cases (value : Name → Option Text) (owed : Bool) (p : Piece) :
    p.joined value owed = p.plain value ∨
      owed ∧ ∃ t c, p = literal t ∧ isBlank c ∧ t = c :: p.joined value owed := by
  cases p with
  | reference n => exact .inl rfl
  | literal t =>
    cases owed with
    | false => exact .inl rfl
    | true =>
      obtain ⟨c, r, rfl, hc, hr⟩ | ⟨-, hsame⟩ := dropBlank_cases t
      · refine .inr ⟨rfl, c :: r, c, rfl, hc, ?_⟩
        rw [joined, if_pos rfl, hr]
      · refine .inl ?_
        rw [joined, if_pos rfl, hsame]
        rfl

end Piece

open Piece

/-- A piece that does not vanish is joined, and then nothing is owed. -/
theorem joinOnto_of_not_vanishes (hp : p.vanishes value = false)
    (h : joinOnto value done owed (p :: ps) = .ok t) :
    joinOnto value (done ++ p.joined value owed) false ps = .ok t := by
  cases p with
  | literal u => exact h
  | reference n =>
    cases hn : value n with
    | none =>
      rw [joinOnto, hn] at h
      cases h
    | some u =>
      cases u with
      | nil => simp [vanishes, hn] at hp
      | cons c r =>
        rw [joinOnto, hn] at h
        rw [joined, hn]
        exact h

/-! ### Runs -/

/-- The pieces of `run` vanish; the pieces right before and right behind them do not. -/
structure IsRun (value : Name → Option Text) (qs run rs : List Piece) : Prop where
  ne_nil : run ≠ []
  vanishes : ∀ p ∈ run, p.vanishes value
  before : ∀ p ∈ qs.getLast?, p.vanishes value = false
  behind : ∀ p ∈ rs.head?, p.vanishes value = false

instance : Decidable (IsRun value qs run rs) :=
  decidable_of_iff (run ≠ [] ∧ (∀ p ∈ run, p.vanishes value) ∧
    (∀ p ∈ qs.getLast?, p.vanishes value = false) ∧ ∀ p ∈ rs.head?, p.vanishes value = false)
    ⟨fun ⟨hne, hrun, hqs, hrs⟩ => ⟨hne, hrun, hqs, hrs⟩,
      fun h => ⟨h.ne_nil, h.vanishes, h.before, h.behind⟩⟩

/-- A piece that vanishes is the first one of a run. -/
theorem exists_isRun (hp : p.vanishes value) (hqs : ∀ q ∈ qs.getLast?, q.vanishes value = false)
    (ps : List Piece) : ∃ run rs, p :: ps = run ++ rs ∧ IsRun value qs run rs := by
  have hsplit : (p :: ps).takeWhile (vanishes value) ++ (p :: ps).dropWhile (vanishes value) =
      p :: ps := List.takeWhile_append_dropWhile
  refine ⟨_, _, hsplit.symm, ?_, ?_, hqs, ?_⟩
  · rw [List.takeWhile_cons_of_pos hp]
    exact List.cons_ne_nil _ _
  · intro q hq
    exact List.all_eq_true.1 List.all_takeWhile q hq
  · intro q hq
    have hhead := List.head?_dropWhile_not (vanishes value) (p :: ps)
    rw [hq] at hhead
    exact hhead

theorem joinOnto_take {n : Name} {s : Text} {c : Char} (hn : value n = some []) (hc : isBlank c) :
    joinOnto value (s ++ [c]) owed (.reference n :: ps) = joinOnto value s false ps := by
  rw [joinOnto, hn]
  dsimp only
  rw [if_pos (by rw [endsBlank_concat, hc]), List.dropLast_concat]

theorem joinOnto_owe {n : Name} (hn : value n = some []) (hb : endsBlank done = false) :
    joinOnto value done owed (.reference n :: ps) = joinOnto value done true ps := by
  rw [joinOnto, hn]
  dsimp only
  rw [if_neg (by simp [hb])]

/-- A run takes one blank for each of its references, as long as there are any. If it has taken less
it may still take one. -/
theorem joinOnto_run (hne : run ≠ []) (hrun : ∀ p ∈ run, p.vanishes value) (done : Text)
    (owed : Bool) (rs : List Piece) :
    ∃ s b, done = s ++ b ∧ AllBlank b ∧ b.length = min run.length (trailing done) ∧
      joinOnto value done owed (run ++ rs) =
        joinOnto value s (decide (trailing done < run.length)) rs := by
  induction run generalizing done owed with
  | nil => exact absurd rfl hne
  | cons p run ih =>
    obtain ⟨hp, hrun'⟩ := List.forall_mem_cons.1 hrun
    obtain ⟨n, rfl, hn⟩ := exists_of_vanishes hp
    rw [List.cons_append, List.length_cons]
    by_cases hb : endsBlank done
    · obtain ⟨s, c, rfl, hc⟩ := exists_of_endsBlank hb
      have hblank : AllBlank [c] := List.forall_mem_singleton.2 hc
      rw [joinOnto_take hn hc, trailing_concat, if_pos hc]
      by_cases hnil : run = []
      · subst hnil
        exact ⟨s, [c], rfl, hblank, by simp, by simp⟩
      · obtain ⟨s', b, rfl, hb', hlength, hrest⟩ := ih hnil hrun' s false
        refine ⟨s', b ++ [c], by simp, allBlank_append.2 ⟨hb', hblank⟩, ?_, ?_⟩
        · rw [List.length_append, hlength, List.length_singleton]
          omega
        · rw [hrest]
          simp
    · have hb : endsBlank done = false := by simpa using hb
      have hzero : trailing done = 0 := trailing_eq_zero_iff.2 hb
      rw [joinOnto_owe hn hb, hzero]
      by_cases hnil : run = []
      · subst hnil
        exact ⟨done, [], by simp, allBlank_nil, by simp, by simp⟩
      · have hpos : 0 < run.length := List.length_pos_iff.2 hnil
        obtain ⟨s, b, hdone, hb', hlength, hrest⟩ := ih hnil hrun' done true
        rw [hzero] at hlength hrest
        exact ⟨s, b, hdone, hb', by simpa using hlength, by simpa [hpos] using hrest⟩

end PairGrammar
