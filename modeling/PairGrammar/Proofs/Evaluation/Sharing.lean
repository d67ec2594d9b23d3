import PairGrammar.Proofs.Evaluation.Levels
import PairGrammar.Proofs.Evaluation.Loaded

/-!
# Evaluations that share a depth

An evaluation with a pair leaves the depth as it has found it. An evaluation that meets the limit
does not go back up: it leaves the level behind that it was refused at. That is the limit, or where
the start was at the limit already, the level next to the start.

So the level that evaluations share never sinks, and when one of them has failed it has come up to
the limit. From then on only productions without references can be evaluated.

* `Run.ending_of_step`: how a step ends an evaluation.
* `Run.Nested.settles_finish`, `settles_evaluate`: the depth that is left behind.
* `evaluate_of_limit_le`: evaluations that start at the limit.
* `evaluate_accounts`: the level during an evaluation, behind it, and from one to the next.
-/

namespace PairGrammar

variable {ρ : Type} [Dice ρ]

namespace Run

/-! ### The last step -/

/-- How a run ends with its next step. -/
inductive Ending (g : Grammar) (r : Run ρ) : Evaluated ρ → Prop
  | refused {n : Name} {rest : List Name} (hp : r.frame.pending = n :: rest)
      (hd : r.depth.enter.isBelowLimit = false) :
      Ending g r ⟨.limitReached r.depth.limit n, r.depth.enter, r.dice⟩
  | unknown {n : Name} {rest : List Name} (hp : r.frame.pending = n :: rest)
      (hd : r.depth.enter.isBelowLimit) (hv : g.find? n = none) :
      Ending g r ⟨.undefined n, r.depth.enter, r.dice⟩
  | unrendered {n : Name} (hp : r.frame.pending = []) (hr : r.frame.render = .error n) :
      Ending g r ⟨.undefined n, r.depth, r.dice⟩
  | result {value : Pair} (hp : r.frame.pending = []) (hr : r.frame.render = .ok value)
      (hw : r.waiting = []) : Ending g r ⟨.pair value, r.depth, r.dice⟩
  | unbalanced {value : Pair} (hp : r.frame.pending = []) (hr : r.frame.render = .ok value)
      (hw : r.waiting ≠ []) (hd : r.depth.leave? = none) :
      Ending g r ⟨.unbalanced, r.depth, r.dice⟩

theorem ending_of_step {g : Grammar} {r : Run ρ} {e : Evaluated ρ} (h : r.step g = .inr e) :
    Ending g r e := by
  unfold step at h
  split at h
  · next n rest hp =>
    unfold descend at h
    dsimp only at h
    split at h
    · next hd =>
      split at h
      · next hv =>
        cases h
        exact .unknown hp hd hv
      · cases h
    · next hd =>
      cases h
      exact .refused hp (by simpa using hd)
  · next hp =>
    split at h
    · next n hr =>
      cases h
      exact .unrendered hp hr
    · next value hr =>
      unfold ascend at h
      split at h
      · next hw =>
        cases h
        exact .result hp hr hw
      · next n f waiting hw =>
        split at h
        · next hd =>
          cases h
          exact .unbalanced hp hr (by rw [hw]; exact List.cons_ne_nil _ _) hd
        · cases h

/-- A run that has come to its end was at work one step before. -/
theorem exists_last_of_steps {g : Grammar} {r : Run ρ} {e : Evaluated ρ} {k : Nat}
    (h : r.steps g k = .inr e) : ∃ j s, r.steps g j = .inl s ∧ s.step g = .inr e := by
  induction k generalizing r with
  | zero => cases h
  | succ k ih =>
    cases hr : r.step g with
    | inl s =>
      rw [steps_succ_of_inl hr] at h
      obtain ⟨j, t, hs, ht⟩ := ih h
      exact ⟨j + 1, t, by rw [steps_succ_of_inl hr, hs], ht⟩
    | inr e' =>
      rw [steps_succ_of_inr hr] at h
      cases h
      exact ⟨0, r, rfl, hr⟩

end Run

/-! ### The depth that is left behind -/

/-- How an evaluation from the depth `d` leaves the depth behind. -/
structure Evaluated.Settles (d : Depth) (e : Evaluated ρ) : Prop where
  limit : e.depth.limit = d.limit
  level_le : d.level ≤ e.depth.level
  pair : ∀ value, e.outcome = .pair value → e.depth = d
  refused : ∀ L m, e.outcome = .limitReached L m → (e.depth.level : Int) = max d.limit (d.level + 1)

namespace Run.Nested

variable {g : Grammar} {d : Depth} {r : Run ρ} {e : Evaluated ρ}

omit [Dice ρ] in
theorem settles_of_ending (h : Nested d r) (he : Ending g r e) : e.Settles d := by
  have hlevel : r.depth.level = d.level + r.waiting.length := h.level
  have hle : d.level ≤ r.depth.level := by omega
  have hup : d.level ≤ r.depth.enter.level := Nat.le_succ_of_le hle
  cases he with
  | @refused n rest hp hd =>
    refine ⟨h.limit, hup, nofun, fun L m _ => ?_⟩
    have hmet : ¬ ((r.depth.level + 1 : Nat) : Int) < r.depth.limit := of_decide_eq_false hd
    rw [h.limit] at hmet
    show ((r.depth.level + 1 : Nat) : Int) = max d.limit (d.level + 1)
    -- with a frame that waits, the level has been below the limit so far
    by_cases hw : r.waiting = []
    · rw [hw, List.length_nil] at hlevel
      omega
    · have hbelow : (r.depth.level : Int) < d.limit := h.below hw
      omega
  | unknown hp hd hv => exact ⟨h.limit, hup, nofun, nofun⟩
  | unrendered hp hr => exact ⟨h.limit, hle, nofun, nofun⟩
  | result hp hr hw =>
    refine ⟨h.limit, hle, fun value _ => ?_, nofun⟩
    have hsame : r.depth.level = d.level := by rw [hlevel, hw, List.length_nil, Nat.add_zero]
    calc r.depth = ⟨r.depth.limit, r.depth.level⟩ := rfl
      _ = ⟨d.limit, d.level⟩ := by rw [h.limit, hsame]
  | unbalanced hp hr hw hd => exact ⟨h.limit, hle, nofun, nofun⟩

theorem settles_finish (h : Nested d r) : (r.finish g).Settles d := by
  have hend : r.steps g (r.cost g) = .inr (r.finish g) := steps_of_cost_le (Nat.le_refl _)
  obtain ⟨j, s, hs, hlast⟩ := exists_last_of_steps hend
  exact (h.steps hs).settles_of_ending (ending_of_step hlast)

end Run.Nested

theorem settles_evaluate (g : Grammar) (n : Name) (d : Depth) (r : ρ) :
    (g.evaluate n d r).Settles d := by
  unfold Grammar.evaluate
  cases g.find? n with
  | none => exact ⟨rfl, Nat.le_refl _, nofun, nofun⟩
  | some v => exact (Run.nested_start _ d _).settles_finish

/-! ### From one evaluation to the next -/

/-- The depth behind evaluations that share it, one after the other. Each has dice of its own, which
may be those that the one before has left. -/
def Grammar.depthBehind (g : Grammar) (d : Depth) (calls : List (Name × ρ)) : Depth :=
  calls.foldl (fun now call => (g.evaluate call.1 now call.2).depth) d

theorem Grammar.depthBehind_append (g : Grammar) (d : Depth) (before behind : List (Name × ρ)) :
    g.depthBehind d (before ++ behind) = g.depthBehind (g.depthBehind d before) behind :=
  List.foldl_append

theorem limit_depthBehind (g : Grammar) (d : Depth) (calls : List (Name × ρ)) :
    (g.depthBehind d calls).limit = d.limit := by
  induction calls generalizing d with
  | nil => rfl
  | cons call calls ih => exact (ih _).trans (settles_evaluate g call.1 d call.2).limit

/-- The level never sinks. -/
theorem level_le_depthBehind (g : Grammar) (d : Depth) (calls : List (Name × ρ)) :
    d.level ≤ (g.depthBehind d calls).level := by
  induction calls generalizing d with
  | nil => exact Nat.le_refl _
  | cons call calls ih => exact (settles_evaluate g call.1 d call.2).level_le.trans (ih _)

/-- Behind a failure the level is not below the limit any more. -/
theorem limit_le_depthBehind {g : Grammar} {d : Depth} {before : List (Name × ρ)}
    {failed : Name × ρ} {L : Int} {m : Name}
    (h : (g.evaluate failed.1 (g.depthBehind d before) failed.2).outcome = .limitReached L m)
    (between : List (Name × ρ)) :
    (g.depthBehind d (before ++ failed :: between)).limit ≤
      (g.depthBehind d (before ++ failed :: between)).level := by
  let now := g.depthBehind d before
  let met := (g.evaluate failed.1 now failed.2).depth
  have hsplit : g.depthBehind d (before ++ failed :: between) = g.depthBehind met between :=
    g.depthBehind_append d before (failed :: between)
  have hsettles := settles_evaluate g failed.1 now failed.2
  have hmet : (met.level : Int) = max now.limit (now.level + 1) := hsettles.refused L m h
  have hlimit : met.limit = now.limit := hsettles.limit
  have hrise : met.level ≤ (g.depthBehind met between).level := level_le_depthBehind g met between
  rw [hsplit, limit_depthBehind]
  omega

/-- At the limit, productions without references can still be evaluated, and no others. -/
theorem evaluate_of_limit_le {g : Grammar} {n : Name} {v : Variable} (hv : g.find? n = some v)
    {d : Depth} (hd : d.limit ≤ d.level) (r : ρ) :
    (v.choose r).1.references = [] ∧
        (∃ value, g.evaluate n d r = ⟨.pair value, d, (v.choose r).2⟩) ∨
      ∃ m ms, (v.choose r).1.references = m :: ms ∧
        g.evaluate n d r = ⟨.limitReached d.limit m, d.enter, (v.choose r).2⟩ := by
  rw [evaluate_eq_evaluateNested, evaluateNested_eq, expand_of_find? hv]
  cases hrefs : (v.choose r).1.references with
  | nil =>
    have hgather : gather g (v.choose r).1.references [] d (v.choose r).2 =
        .ok ([], (v.choose r).2) := by
      rw [hrefs]
      exact gather_nil g [] d _
    obtain ⟨value, hvalue⟩ := render_isOk_of_gather hgather
    left
    rw [gather_nil]
    simp only [hvalue]
    exact ⟨trivial, value, rfl⟩
  | cons m ms =>
    have hmet : ¬ d.enter.isBelowLimit := by
      intro hbelow
      have hlt : ((d.level + 1 : Nat) : Int) < d.limit := of_decide_eq_true hbelow
      omega
    right
    rw [gather_cons, if_neg hmet]
    exact ⟨m, ms, rfl, rfl⟩

/-- The accounts of the level. While an evaluation goes on, the level is the one at its start and
one for each frame on the stack but the first. A pair leaves the level as it was, and where the
limit is reached the level comes to the limit, or to one more than at the start if that is above it.
From then on the evaluations that share the depth have a pair exactly if the first production that
they draw has no references, and each further failure raises the level by one. -/
theorem evaluate_accounts {g : Grammar} (hg : g.IsClosed) (d : Depth) :
    (∀ (n : Name) (v : Variable), g.find? n = some v → ∀ r : ρ,
      (∀ k s, (Run.start (v.choose r).1 d (v.choose r).2).steps g k = .inl s →
        (s.depth.level : Int) = d.level + s.stack.length - 1) ∧
      ((∃ value, (g.evaluate n d r).outcome = .pair value ∧
          (g.evaluate n d r).depth.level = d.level) ∨
        ∃ m, (g.evaluate n d r).outcome = .limitReached d.limit m ∧
          ((g.evaluate n d r).depth.level : Int) = max d.limit (d.level + 1))) ∧
    ∀ (before between : List (Name × ρ)) (failed : Name × ρ) (L : Int) (m : Name),
      (g.evaluate failed.1 (g.depthBehind d before) failed.2).outcome = .limitReached L m →
      ∀ (n : Name) (v : Variable), g.find? n = some v → ∀ r : ρ,
        let now := g.depthBehind d (before ++ failed :: between)
        ((∃ value, (g.evaluate n now r).outcome = .pair value) ↔
          (v.choose r).1.references = []) ∧
        ∀ L' m', (g.evaluate n now r).outcome = .limitReached L' m' →
          (g.evaluate n now r).depth.level = now.level + 1 := by
  constructor
  · intro n v hv r
    have hsettles := settles_evaluate g n d r
    refine ⟨fun k s hs => ?_, ?_⟩
    · have hlevel : s.depth.level = d.level + s.waiting.length :=
        ((Run.nested_start _ d _).steps hs).level
      rw [Run.length_stack]
      omega
    · rcases outcome_of_isClosed hg (Option.isSome_of_eq_some hv) d r with ⟨value, ho⟩ | ⟨m, ho⟩
      · exact .inl ⟨value, ho, by rw [hsettles.pair value ho]⟩
      · exact .inr ⟨m, ho, hsettles.refused d.limit m ho⟩
  · intro before between failed L m hfail n v hv r now
    have hnow : now.limit ≤ now.level := limit_le_depthBehind hfail between
    rcases evaluate_of_limit_le hv hnow r with ⟨hrefs, value, he⟩ | ⟨m', ms, hrefs, he⟩
    · rw [he, hrefs]
      exact ⟨iff_of_true ⟨value, rfl⟩ rfl, nofun⟩
    · rw [he, hrefs]
      refine ⟨iff_of_false ?_ (List.cons_ne_nil _ _), fun L' m'' _ => rfl⟩
      rintro ⟨value, hvalue⟩
      cases hvalue

/-- Under the limit two, from level zero: a pair, a failure at level two and another one at level
three. Then the production without references still has a pair, and the other one fails. -/
theorem evaluate_accounts_shared :
    let g := Grammar.repetition
    let dice (numbers : List Int) := Script.ofList numbers false
    let before := [(Name.output, dice [2, 0])]
    let failed := (Name.output, dice [2, 2])
    let now := g.depthBehind ⟨2, 0⟩ (before ++ failed :: [(Name.output, dice [2])])
    g.IsClosed ∧ (g.find? Name.output).isSome ∧
      (g.evaluate failed.1 (g.depthBehind ⟨2, 0⟩ before) failed.2).outcome =
        .limitReached 2 Name.output ∧
      ((g.evaluate Name.output ⟨2, 0⟩ (dice [2, 2])).depth.level : Int) = max 2 1 ∧
      now.level = 3 ∧ (∃ value, (g.evaluate Name.output now (dice [0])).outcome = .pair value) ∧
      (g.evaluate Name.output now (dice [2])).depth.level = now.level + 1 := by
  intro g dice before failed now
  let v := g.rootVariable
  have hclosed : g.IsClosed := Grammar.isClosed_repetition
  have hv : g.find? Name.output = some v := rfl
  have hfail : (g.evaluate failed.1 (g.depthBehind ⟨2, 0⟩ before) failed.2).outcome =
      .limitReached 2 Name.output := by decide +kernel
  have hagain : (g.evaluate Name.output now (dice [2])).outcome = .limitReached 2 Name.output := by
    decide +kernel
  have hrefs : (v.choose (dice [0])).1.references = [] := by decide
  obtain ⟨honce, hlater⟩ := evaluate_accounts (ρ := Script) hclosed ⟨2, 0⟩
  have hat := hlater before [(Name.output, dice [2])] failed 2 Name.output hfail Name.output v hv
  refine ⟨hclosed, rfl, hfail, ?_, by decide +kernel, (hat (dice [0])).1.2 hrefs, ?_⟩
  · rcases (honce Name.output v hv (dice [2, 2])).2 with ⟨value, ho, -⟩ | ⟨m, -, hlevel⟩
    · have hmet : (g.evaluate Name.output ⟨2, 0⟩ (dice [2, 2])).outcome =
          .limitReached 2 Name.output := by decide +kernel
      rw [hmet] at ho
      cases ho
    · exact hlevel
  · exact (hat (dice [2])).2 2 Name.output hagain

end PairGrammar
