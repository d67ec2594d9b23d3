import PairGrammar.Proofs.Evaluation.Levels
import PairGrammar.Proofs.Evaluation.Loaded

/-!
# Evaluation under different limits

A limit does not turn an evaluation into another one, it only cuts it off. Under two limits the same
steps are taken up to where the lower one is met, so the rolls under the lower limit are the first
rolls under the higher one. An evaluation that comes through follows a derivation tree, and it comes
through under all limits that the height of this tree stays below, and under no others.

* `Run.step_withLimit`: a step that goes on under a limit goes on as well under a higher one.
* `chosen_prefix_of_le`, `rolls_suffix_of_le`: so do choices and rolls.
* `Derivation.isPair_iff`: the tree that the dice follow says under which limits there is a pair.
* `evaluate_of_limits`: one evaluation under all limits.
-/

namespace PairGrammar

variable {ρ : Type} [Dice ρ]

/-! ### Dice that follow choices -/

theorem Draws.unique {cs : List Choice} {r r₁ r₂ : ρ} (h₁ : Draws cs r r₁) (h₂ : Draws cs r r₂) :
    r₁ = r₂ := by
  induction h₁ with
  | nil r =>
    cases h₂
    rfl
  | cons first rest ih =>
    cases h₂ with
    | cons first' rest' => exact ih rest'

/-- Rolls that have been made stay on record. -/
theorem Draws.rolls_suffix {cs : List Choice} {r r' : Recorded ρ} (h : Draws cs r r') :
    r.rolls <:+ r'.rolls := by
  induction h with
  | nil r => exact List.suffix_refl _
  | @cons c cs r r' first rest ih =>
    refine List.IsSuffix.trans ?_ ih
    cases hc : c.isOpen with
    | false => rw [draw_of_not_isOpen hc]
    | true =>
      show r.rolls <:+ (c.owner.sampler.draw r).2.rolls
      rw [draw_of_isOpen hc]
      exact List.suffix_cons _ _

/-! ### Steps under a higher limit -/

namespace Run

/-- The same run under another limit. -/
def withLimit (r : Run ρ) (limit : Int) : Run ρ :=
  { r with depth := { r.depth with limit := limit } }

theorem step_withLimit {g : Grammar} {r s : Run ρ} {limit : Int} (hlimit : r.depth.limit ≤ limit)
    (hs : r.step g = .inl s) :
    (r.withLimit limit).step g = .inl (s.withLimit limit) ∧
      (r.withLimit limit).choice? g = r.choice? g ∧ s.depth.limit = r.depth.limit := by
  rcases step_cases hs with
    ⟨n, rest, v, hp, hd, hv, rfl⟩ | ⟨value, n, f, waiting, e, hp, hr, hw, he, rfl⟩
  · have hbelow : ((r.depth.level + 1 : Nat) : Int) < r.depth.limit := of_decide_eq_true hd
    have hd' : (r.withLimit limit).depth.enter.isBelowLimit :=
      decide_eq_true (Int.lt_of_lt_of_le hbelow hlimit)
    have hp' : (r.withLimit limit).frame.pending = n :: rest := hp
    refine ⟨?_, ?_, rfl⟩
    · simp only [step, descend, hp', hd', hv, if_true]
      rfl
    · simp only [choice?, hp', hd', hp, hd, hv, if_true]
      rfl
  · have hdepth : r.depth = e.enter := Depth.eq_enter_of_leave? he
    have hp' : (r.withLimit limit).frame.pending = [] := hp
    have hr' : (r.withLimit limit).frame.render = .ok value := hr
    have hw' : (r.withLimit limit).waiting = (n, f) :: waiting := hw
    have he' : (r.withLimit limit).depth.leave? = some { e with limit := limit } := by
      rw [withLimit, hdepth]
      rfl
    refine ⟨?_, ?_, ?_⟩
    · simp only [step, ascend, hp', hr', hw', he']
      rfl
    · simp only [choice?, hp', hp]
    · rw [hdepth]
      rfl

/-- The lower limit cuts the choices off. -/
theorem chosen_prefix {g : Grammar} {r : Run ρ} {limit : Int} (hlimit : r.depth.limit ≤ limit) :
    r.chosen g <+: (r.withLimit limit).chosen g := by
  cases hs : r.step g with
  | inl s =>
    obtain ⟨hs', hc, hsame⟩ := step_withLimit hlimit hs
    have hrest : s.depth.limit ≤ limit := by
      rw [hsame]
      exact hlimit
    rw [chosen_of_inl hs, chosen_of_inl hs', hc, List.prefix_append_right_inj]
    exact chosen_prefix hrest
  | inr e =>
    rw [chosen_of_inr hs]
    exact List.nil_prefix
termination_by r.cost g
decreasing_by exact cost_lt_of_step hs

end Run

variable {g : Grammar} {n : Name} {level : Nat}

theorem chosen_prefix_of_le {L M : Int} (h : L ≤ M) (r : ρ) :
    g.chosen n ⟨L, level⟩ r <+: g.chosen n ⟨M, level⟩ r := by
  unfold Grammar.chosen
  cases g.find? n with
  | none => exact List.nil_prefix
  | some v =>
    refine (List.prefix_cons_inj _).2 ?_
    exact Run.chosen_prefix (r := Run.start (v.draw r).1.production ⟨L, level⟩ (v.draw r).2) h

/-- The rolls under the lower limit are the first ones under the higher limit. -/
theorem rolls_suffix_of_le {L M : Int} (h : L ≤ M) (r : Recorded ρ) :
    (g.evaluate n ⟨L, level⟩ r).dice.rolls <:+ (g.evaluate n ⟨M, level⟩ r).dice.rolls := by
  have hprefix : g.chosen n ⟨L, level⟩ r <+: g.chosen n ⟨M, level⟩ r := chosen_prefix_of_le h r
  obtain ⟨more, hmore⟩ := hprefix
  have hdraws := g.draws_chosen n ⟨M, level⟩ r
  rw [← hmore] at hdraws
  obtain ⟨r', hfirst, hrest⟩ := draws_append.1 hdraws
  rw [(g.draws_chosen n ⟨L, level⟩ r).unique hfirst]
  exact hrest.rolls_suffix

/-! ### Limits and the tree behind a pair -/

theorem Depth.Admits.mono {L M : Int} {h : Nat} (hle : L ≤ M)
    (ha : (⟨L, level⟩ : Depth).Admits h) : (⟨M, level⟩ : Depth).Admits h :=
  ha.imp_right fun hlt => Int.lt_of_lt_of_le hlt hle

/-- Behind a pair there is a derivation tree that the limit admits. -/
theorem exists_derivation_of_pair (hg : g.IsClosed) (hn : (g.find? n).isSome) {d : Depth} {r : ρ}
    {value : Pair} (h : (g.evaluate n d r).outcome = .pair value) :
    ∃ t : Derivation g n, d.Admits t.height ∧ t.render = .ok value ∧
      Draws t.choices r (g.evaluate n d r).dice := by
  cases he : g.evaluate n d r with
  | mk o d' r' =>
    rw [he] at h
    cases h
    exact exists_derivation hg hn he

/-- Dice follow one derivation tree at most. -/
theorem Derivation.eq_of_draws {t t' : Derivation g n} {r r₁ r₂ : ρ} (h : Draws t.choices r r₁)
    (h' : Draws t'.choices r r₂) : t = t' := by
  -- under a limit above both heights there is one evaluation, and it follows both trees
  let d : Depth := ⟨max (t.height + 1 : Nat) (t'.height + 1 : Nat), 0⟩
  have ha : d.Admits t.height := .inr (by simp only [d]; omega)
  have ha' : d.Admits t'.height := .inr (by simp only [d]; omega)
  have hf : t.IsFollowed d r := (t.isFollowed_iff ha).2 ⟨_, h⟩
  have hf' : t'.IsFollowed d r := (t'.isFollowed_iff ha').2 ⟨_, h'⟩
  exact Derivation.eq_of_choices_eq (hf.symm.trans hf')

/-- Where the dice follow a derivation tree there is a pair under the limits that admit it, and only
under them. -/
theorem Derivation.isPair_iff (hg : g.IsClosed) (hn : (g.find? n).isSome) (t : Derivation g n)
    {r r' : ρ} (hr : Draws t.choices r r') (d : Depth) :
    (∃ value, (g.evaluate n d r).outcome = .pair value) ↔ d.Admits t.height := by
  constructor
  · rintro ⟨value, hvalue⟩
    obtain ⟨t', ha, -, hr'⟩ := exists_derivation_of_pair hg hn hvalue
    rw [Derivation.eq_of_draws hr hr']
    exact ha
  · intro ha
    obtain ⟨value, hvalue⟩ := t.render_isOk
    exact ⟨value, by rw [(t.evaluate_of_draws ha hr hvalue).2]⟩

/-- A pair under a limit is the pair under every higher one, and leaves the same level and dice. -/
theorem evaluate_of_pair (hg : g.IsClosed) (hn : (g.find? n).isSome) {L M : Int} (hle : L ≤ M)
    {r : ρ} {value : Pair} (h : (g.evaluate n ⟨L, level⟩ r).outcome = .pair value) :
    ∃ r', g.evaluate n ⟨L, level⟩ r = ⟨.pair value, ⟨L, level⟩, r'⟩ ∧
      g.evaluate n ⟨M, level⟩ r = ⟨.pair value, ⟨M, level⟩, r'⟩ := by
  obtain ⟨t, ha, hv, hr⟩ := exists_derivation_of_pair hg hn h
  exact ⟨_, (t.evaluate_of_draws ha hr hv).2, (t.evaluate_of_draws (ha.mono hle) hr hv).2⟩

/-- One evaluation under all limits. Under the lower of two limits its rolls are the first ones of
those under the higher limit, and its pair, if there is one, is the pair under the higher limit with
the same rolls and the same level. If there is a pair under any limit, the evaluation follows a
derivation tree whose height says under which limits there is one. If there is none, the limit is
always reached. -/
theorem evaluate_of_limits (hg : g.IsClosed) (hn : (g.find? n).isSome) (level : Nat)
    (r : Recorded ρ) :
    (∀ L M : Int, L ≤ M →
      (g.evaluate n ⟨L, level⟩ r).dice.rolls <:+ (g.evaluate n ⟨M, level⟩ r).dice.rolls ∧
      ∀ value, (g.evaluate n ⟨L, level⟩ r).outcome = .pair value →
        ∃ r', g.evaluate n ⟨L, level⟩ r = ⟨.pair value, ⟨L, level⟩, r'⟩ ∧
          g.evaluate n ⟨M, level⟩ r = ⟨.pair value, ⟨M, level⟩, r'⟩) ∧
    (∀ (K : Int) (value : Pair), (g.evaluate n ⟨K, level⟩ r).outcome = .pair value →
      ∃ t : Derivation g n, t.IsFollowed ⟨K, level⟩ r ∧ ∀ L : Int,
        (∃ value, (g.evaluate n ⟨L, level⟩ r).outcome = .pair value) ↔
          t.height = 0 ∨ ((level + t.height : Nat) : Int) < L) ∧
    ((∀ (K : Int) (value : Pair), (g.evaluate n ⟨K, level⟩ r).outcome ≠ .pair value) →
      ∀ L : Int, ∃ m, (g.evaluate n ⟨L, level⟩ r).outcome = .limitReached L m) := by
  refine ⟨fun L M hle => ⟨rolls_suffix_of_le hle r, fun value h => ?_⟩, fun K value h => ?_,
    fun h L => ?_⟩
  · exact evaluate_of_pair hg hn hle h
  · obtain ⟨t, ha, -, hr⟩ := exists_derivation_of_pair hg hn h
    exact ⟨t, (t.isFollowed_iff ha).2 ⟨_, hr⟩, fun L => t.isPair_iff hg hn hr ⟨L, level⟩⟩
  · rcases outcome_of_isClosed hg hn ⟨L, level⟩ r with ⟨value, hvalue⟩ | hlimit
    · exact absurd hvalue (h L value)
    · exact hlimit

/-- From level one, the variable that goes on with itself twice has a pair under the limits above
three. -/
theorem evaluate_of_limits_twice :
    let under (limit : Int) := Grammar.repetition.evaluate Name.output ⟨limit, 1⟩
      (⟨.ofList [2, 2, 0] false, []⟩ : Recorded Script)
    Grammar.repetition.IsClosed ∧ (Grammar.repetition.find? Name.output).isSome ∧
      (under 3).outcome = .limitReached 3 Name.output ∧
      (under 4).outcome = .pair ⟨['x', ' ', 'x', ' ', 'x'], ['y', 'z', 'z']⟩ ∧
      (under 3).dice.rolls <:+ (under 4).dice.rolls ∧
      ∀ L : Int, (∃ value, (under L).outcome = .pair value) ↔ 3 < L := by
  intro under
  have hclosed : Grammar.repetition.IsClosed := Grammar.isClosed_repetition
  have hsome : (Grammar.repetition.find? Name.output).isSome := by decide
  have hthree : (under 3).outcome = .limitReached 3 Name.output := by decide +kernel
  have hfour : (under 4).outcome = .pair ⟨['x', ' ', 'x', ' ', 'x'], ['y', 'z', 'z']⟩ := by
    decide +kernel
  obtain ⟨hle, hpair, -⟩ := evaluate_of_limits hclosed hsome 1
    (⟨.ofList [2, 2, 0] false, []⟩ : Recorded Script)
  obtain ⟨t, -, ht⟩ := hpair 4 _ hfour
  have hnone : ¬ ∃ value, (under 3).outcome = .pair value := by
    rintro ⟨value, hvalue⟩
    rw [hthree] at hvalue
    cases hvalue
  have hheight : t.height = 2 := by
    have h3 := (ht 3).not.1 hnone
    have h4 := (ht 4).1 ⟨_, hfour⟩
    omega
  refine ⟨hclosed, hsome, hthree, hfour, (hle 3 4 (by decide)).1, fun L => (ht L).trans ?_⟩
  rw [hheight]
  omega

end PairGrammar
