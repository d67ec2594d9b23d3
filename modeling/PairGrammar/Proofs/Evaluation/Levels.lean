import PairGrammar.Proofs.Evaluation.Choices
import PairGrammar.Proofs.Grammar.Closed

/-!
# Levels and the number of steps

The level of an evaluation is the one that it started at and one for each frame that waits. A frame
is only put on others where the level stays below the limit, so the limit bounds the stack; and the
cost of a run falls with every step, so it bounds the number of steps. Grammars whose references go
round in circles, and variables without any finite text, are no exception.

* `Nested.step`, `Nested.steps`: level and stack go along with each other.
* `steps_of_cost_le`: a run has come to its end after as many steps as it costs.
* `evaluate_ends`: how many steps an evaluation takes at most, and how many frames it holds.
-/

namespace PairGrammar

variable {ρ : Type} [Dice ρ]

theorem Depth.eq_enter_of_leave? {d e : Depth} (h : d.leave? = some e) : d = e.enter := by
  obtain ⟨limit, level⟩ := d
  cases level with
  | zero => cases h
  | succ l =>
    cases h
    rfl

namespace Run

/-- The frame at work and the frames around it. -/
def stack (r : Run ρ) : List Frame := r.frame :: r.waiting.map (·.2)

omit [Dice ρ] in
@[simp] theorem length_stack (r : Run ρ) : r.stack.length = r.waiting.length + 1 := by
  simp [stack]

/-- What a run comes to in `k` steps, the end included: a run that is still at work, or the end. -/
def steps (g : Grammar) : (k : Nat) → Run ρ → Run ρ ⊕ Evaluated ρ
  | 0, r => .inl r
  | k + 1, r => match r.step g with
    | .inl s => steps g k s
    | .inr e => .inr e

theorem steps_succ_of_inl {g : Grammar} {r s : Run ρ} (h : r.step g = .inl s) (k : Nat) :
    r.steps g (k + 1) = s.steps g k := by
  rw [steps, h]

theorem steps_succ_of_inr {g : Grammar} {r : Run ρ} {e : Evaluated ρ} (h : r.step g = .inr e)
    (k : Nat) : r.steps g (k + 1) = .inr e := by
  rw [steps, h]

/-! ### Levels go along with frames -/

/-- A run that started at the depth `d`: one level for each frame that waits, and all of them below
the limit. -/
structure Nested (d : Depth) (r : Run ρ) : Prop where
  limit : r.depth.limit = d.limit
  level : r.depth.level = d.level + r.waiting.length
  below : r.waiting ≠ [] → (r.depth.level : Int) < d.limit

omit [Dice ρ] in
theorem nested_start (p : Production) (d : Depth) (r : ρ) : Nested d (start p d r) :=
  ⟨rfl, rfl, fun h => absurd rfl h⟩

namespace Nested

variable {g : Grammar} {d : Depth} {r s : Run ρ}

theorem step (h : Nested d r) (hs : r.step g = .inl s) : Nested d s := by
  rcases step_cases hs with
    ⟨n, rest, v, -, hd, -, rfl⟩ | ⟨value, n, f, waiting, e, -, -, hw, he, rfl⟩
  · have hbelow : ((r.depth.level + 1 : Nat) : Int) < r.depth.limit := of_decide_eq_true hd
    refine ⟨h.limit, ?_, fun _ => ?_⟩
    · show r.depth.level + 1 = d.level + (r.waiting.length + 1)
      rw [h.level, Nat.add_assoc]
    · rw [h.limit] at hbelow
      exact hbelow
  · have hdepth : r.depth = e.enter := Depth.eq_enter_of_leave? he
    have hlevel : e.level + 1 = d.level + (waiting.length + 1) := by
      have hr := h.level
      rw [hdepth, hw, List.length_cons] at hr
      exact hr
    have hbelow : ((e.level + 1 : Nat) : Int) < d.limit := by
      have hr := h.below (by rw [hw]; exact List.cons_ne_nil _ _)
      rw [hdepth] at hr
      exact hr
    refine ⟨?_, ?_, fun _ => ?_⟩
    · rw [← h.limit, hdepth]
      rfl
    · show e.level = d.level + waiting.length
      omega
    · show (e.level : Int) < d.limit
      omega

theorem steps {k : Nat} (h : Nested d r) (hs : r.steps g k = .inl s) : Nested d s := by
  induction k generalizing r with
  | zero =>
    cases hs
    exact h
  | succ k ih =>
    cases hr : r.step g with
    | inl t =>
      rw [steps_succ_of_inl hr] at hs
      exact ih (h.step hr) hs
    | inr e =>
      rw [steps_succ_of_inr hr] at hs
      cases hs

omit [Dice ρ] in
/-- The limit bounds the stack, on which one frame lies in any case. -/
theorem length_stack_le (h : Nested d r) : (r.stack.length : Int) ≤ max 1 (d.limit - d.level) := by
  have hlevel := h.level
  rw [length_stack]
  by_cases hw : r.waiting = []
  · rw [hw, List.length_nil]
    omega
  · have hbelow := h.below hw
    omega

end Nested

/-! ### Steps come to an end -/

omit [Dice ρ] in
theorem cost_pos (g : Grammar) (r : Run ρ) : 0 < r.cost g := by
  simp only [cost, weigh]
  omega

/-- Each step takes at least one from the cost, which is positive up to the end. -/
theorem steps_of_cost_le {g : Grammar} {r : Run ρ} {k : Nat} (h : r.cost g ≤ k) :
    r.steps g k = .inr (r.finish g) := by
  induction k generalizing r with
  | zero =>
    have hpos := r.cost_pos g
    omega
  | succ k ih =>
    cases hr : r.step g with
    | inl s =>
      have hlt : s.cost g < r.cost g := cost_lt_of_step hr
      rw [steps_succ_of_inl hr, finish_of_inl hr]
      exact ih (by omega)
    | inr e => rw [steps_succ_of_inr hr, finish_of_inr hr]

/-- What an evaluation costs when its first production has been drawn. -/
theorem cost_start_le {g : Grammar} {n : Name} {v : Variable} (hv : g.find? n = some v) (d : Depth)
    (r : ρ) : (start (v.choose r).1 d (v.choose r).2).cost g ≤ (base g).pow (d.room + 1) := by
  have hb := references_lt_base hv r
  have hpow : 0 < (base g).pow d.room := Nat.pow_pos (by omega)
  show (v.choose r).1.references.length * (base g).pow d.room + 1 + 0 ≤ _
  calc (v.choose r).1.references.length * (base g).pow d.room + 1 + 0
      ≤ ((v.choose r).1.references.length + 1) * (base g).pow d.room := by
        rw [Nat.add_mul]
        omega
    _ ≤ base g * (base g).pow d.room := Nat.mul_le_mul_right _ (by omega)
    _ = (base g).pow (d.room + 1) := Nat.mul_comm _ _

end Run

/-- An evaluation comes to its end. The number of its steps is at most a power of the number of the
references of the grammar, with the levels up to the limit in the exponent; and on the way there are
never more frames than there are levels up to the limit, or one where there are none. -/
theorem evaluate_ends {g : Grammar} {n : Name} {v : Variable} (hv : g.find? n = some v) (d : Depth)
    (r : ρ) :
    (∃ k ≤ (Run.base g).pow (d.room + 1),
      (Run.start (v.choose r).1 d (v.choose r).2).steps g k = .inr (g.evaluate n d r)) ∧
    ∀ k s, (Run.start (v.choose r).1 d (v.choose r).2).steps g k = .inl s →
      (s.stack.length : Int) ≤ max 1 (d.limit - d.level) := by
  constructor
  · have heq : g.evaluate n d r = (Run.start (v.choose r).1 d (v.choose r).2).finish g := by
      rw [Grammar.evaluate, hv]
    refine ⟨_, Run.cost_start_le hv d r, ?_⟩
    rw [heq]
    exact Run.steps_of_cost_le (Nat.le_refl _)
  · intro k s hs
    exact ((Run.nested_start _ d _).steps hs).length_stack_le

namespace Grammar

/-- Two variables that refer to each other in all their productions, one of them to itself as well:
neither has a finite text. -/
def bottomless : Grammar where
  vocabulary := [
    ⟨Name.output, [(⟨[.reference ['a'], .reference Name.output], [.reference ['a']]⟩, 1),
      (⟨[.reference ['a']], []⟩, 2)], List.cons_ne_nil _ _⟩,
    ⟨['a'], [(⟨[.literal ['x']], [.reference Name.output]⟩, 0)], List.cons_ne_nil _ _⟩]
  root := Name.output
  root_mem := ⟨_, List.mem_cons_self, rfl⟩

end Grammar

/-- From level one there are three levels up to the limit four, hence at most three frames. -/
theorem evaluate_ends_bottomless :
    let v := Grammar.bottomless.rootVariable
    let dice := Script.ofList [1, 0] false
    let start := Run.start (v.choose dice).1 ⟨4, 1⟩ (v.choose dice).2
    Grammar.bottomless.find? Name.output = some v ∧
      (Grammar.bottomless.evaluate Name.output ⟨4, 1⟩ dice).outcome = .limitReached 4 ['a'] ∧
      (∃ k ≤ Nat.pow 6 4, start.steps .bottomless k =
        .inr (Grammar.bottomless.evaluate Name.output ⟨4, 1⟩ dice)) ∧
      ∀ k s, start.steps .bottomless k = .inl s → (s.stack.length : Int) ≤ 3 := by
  intro v dice start
  have hv : Grammar.bottomless.find? Name.output = some v := rfl
  have hbase : Run.base Grammar.bottomless = 6 := by decide
  have hroom : Depth.room ⟨4, 1⟩ = 3 := by decide
  have hmax : max 1 ((4 : Int) - (1 : Nat)) = 3 := by decide
  have houtcome : (Grammar.bottomless.evaluate Name.output ⟨4, 1⟩ dice).outcome =
      .limitReached 4 ['a'] := by decide +kernel
  obtain ⟨hsteps, hstack⟩ := evaluate_ends hv ⟨4, 1⟩ dice
  rw [hbase, hroom] at hsteps
  rw [hmax] at hstack
  exact ⟨hv, houtcome, hsteps, hstack⟩

end PairGrammar
