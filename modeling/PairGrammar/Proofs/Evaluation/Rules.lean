import PairGrammar.Proofs.Evaluation.Gather

/-!
# Evaluation by rules

What it means to evaluate a variable, written down as rules. One production of the variable is
drawn. For each name that it refers to, in the order of first occurrence, one is added to the
level; where the level is then not below the limit, everything stops at once with the level and the
dice that there are. Otherwise the variable of that name is evaluated, one is taken from the
level, and its pair is recorded. At last the two lines are rendered from the recorded pairs.

`Evaluates` are the rules of a variable and `Gathers` those of its references. They thread the
level and the dice through every premise, and know neither frames nor a stack.

* `Gathers.eq_gathered`: the rules allow nothing but what the recursion gives.
* `gathers_gathered`: in a closed grammar they allow that.
* `evaluates_iff_evaluate_eq`: in a closed grammar the steps on a stack of frames come to the one
  end that the rules allow, with the same level and the same rolls of the dice.
-/

namespace PairGrammar

variable {ρ : Type} [Dice ρ]

mutual

/-- `Evaluates g n d r e`: the variable `n`, evaluated at the depth `d` with the dice `r`, comes to
the end `e`. -/
inductive Evaluates (g : Grammar) : Name → Depth → ρ → Evaluated ρ → Prop
  | pair {n : Name} {v : Variable} {d d' : Depth} {r r' : ρ} {values : List (Name × Pair)}
      {value : Pair} :
      g.find? n = some v →
      Gathers g (v.choose r).1.references [] d (v.choose r).2 (.ok (values, d', r')) →
      (v.choose r).1.render (fun m => values.lookup m) = .ok value →
      Evaluates g n d r ⟨.pair value, d', r'⟩
  | stopped {n m : Name} {v : Variable} {d d' : Depth} {r r' : ρ} {limit : Int} :
      g.find? n = some v →
      Gathers g (v.choose r).1.references [] d (v.choose r).2
        (.error ⟨.limitReached limit m, d', r'⟩) →
      Evaluates g n d r ⟨.limitReached limit m, d', r'⟩

/-- `Gathers g ns values d r x`: with `values` recorded, the names `ns` are evaluated one after the
other, which leads to all the recorded pairs, or to the end of everything. -/
inductive Gathers (g : Grammar) : List Name → List (Name × Pair) → Depth → ρ →
    Except (Evaluated ρ) (List (Name × Pair) × Depth × ρ) → Prop
  | done {values : List (Name × Pair)} {d : Depth} {r : ρ} :
      Gathers g [] values d r (.ok (values, d, r))
  | tooDeep {n : Name} {ns : List Name} {values : List (Name × Pair)} {d : Depth} {r : ρ} :
      ¬ d.enter.isBelowLimit →
      Gathers g (n :: ns) values d r (.error ⟨.limitReached d.limit n, d.enter, r⟩)
  | stopped {n m : Name} {ns : List Name} {values : List (Name × Pair)} {d d' : Depth} {r r' : ρ}
      {limit : Int} :
      d.enter.isBelowLimit →
      Evaluates g n d.enter r ⟨.limitReached limit m, d', r'⟩ →
      Gathers g (n :: ns) values d r (.error ⟨.limitReached limit m, d', r'⟩)
  | next {n : Name} {ns : List Name} {values : List (Name × Pair)} {d d' d'' : Depth} {r r' : ρ}
      {value : Pair} {x : Except (Evaluated ρ) (List (Name × Pair) × Depth × ρ)} :
      d.enter.isBelowLimit →
      Evaluates g n d.enter r ⟨.pair value, d', r'⟩ →
      d'.leave? = some d'' →
      Gathers g ns ((n, value) :: values) d'' r' x →
      Gathers g (n :: ns) values d r x

end

/-- What the recursion makes of names, with the depth that it comes back to. -/
def gathered (g : Grammar) (ns : List Name) (values : List (Name × Pair)) (d : Depth) (r : ρ) :
    Except (Evaluated ρ) (List (Name × Pair) × Depth × ρ) :=
  (gather g ns values d r).map fun x => (x.1, d, x.2)

theorem gathered_of_ok {g : Grammar} {ns : List Name} {values values' : List (Name × Pair)}
    {d : Depth} {r r' : ρ} (h : gather g ns values d r = .ok (values', r')) :
    gathered g ns values d r = .ok (values', d, r') := by
  rw [gathered, h]
  rfl

theorem gathered_of_error {g : Grammar} {ns : List Name} {values : List (Name × Pair)}
    {d : Depth} {r : ρ} {e : Evaluated ρ} (h : gather g ns values d r = .error e) :
    gathered g ns values d r = .error e := by
  rw [gathered, h]
  rfl

theorem gathered_eq_ok {g : Grammar} {ns : List Name} {values values' : List (Name × Pair)}
    {d d' : Depth} {r r' : ρ} (h : gathered g ns values d r = .ok (values', d', r')) :
    gather g ns values d r = .ok (values', r') ∧ d' = d := by
  cases hx : gather g ns values d r with
  | error e =>
    rw [gathered_of_error hx] at h
    cases h
  | ok x =>
    rw [gathered_of_ok hx] at h
    cases h
    exact ⟨rfl, rfl⟩

theorem gathered_eq_error {g : Grammar} {ns : List Name} {values : List (Name × Pair)}
    {d : Depth} {r : ρ} {e : Evaluated ρ} (h : gathered g ns values d r = .error e) :
    gather g ns values d r = .error e := by
  cases hx : gather g ns values d r with
  | error e' =>
    rw [gathered_of_error hx] at h
    cases h
    rfl
  | ok x =>
    rw [gathered_of_ok hx] at h
    cases h

/-! ### The rules allow nothing but the recursion -/

/-- A variable that the rules give a pair has it by the recursion, and the level is what it was. -/
theorem Evaluates.expand_eq_ok {g : Grammar} {n : Name} {d d' : Depth} {r r' : ρ} {value : Pair}
    (h : Evaluates g n d r ⟨.pair value, d', r'⟩)
    (hg : ∀ v x, g.find? n = some v → Gathers g (v.choose r).1.references [] d (v.choose r).2 x →
      x = gathered g (v.choose r).1.references [] d (v.choose r).2) :
    g.expand n d r = .ok (value, r') ∧ d' = d := by
  cases h with
  | pair hv hgath hrender =>
    obtain ⟨hok, rfl⟩ := gathered_eq_ok (hg _ _ hv hgath).symm
    rw [expand_of_find? hv, hok]
    dsimp only
    rw [hrender]
    exact ⟨rfl, rfl⟩

theorem Evaluates.expand_eq_error {g : Grammar} {n m : Name} {d d' : Depth} {r r' : ρ}
    {limit : Int} (h : Evaluates g n d r ⟨.limitReached limit m, d', r'⟩)
    (hg : ∀ v x, g.find? n = some v → Gathers g (v.choose r).1.references [] d (v.choose r).2 x →
      x = gathered g (v.choose r).1.references [] d (v.choose r).2) :
    g.expand n d r = .error ⟨.limitReached limit m, d', r'⟩ := by
  cases h with
  | stopped hv hgath =>
    rw [expand_of_find? hv, gathered_eq_error (hg _ _ hv hgath).symm]

theorem Gathers.eq_gathered {g : Grammar} {ns : List Name} {values : List (Name × Pair)}
    {d : Depth} {r : ρ} {x : Except (Evaluated ρ) (List (Name × Pair) × Depth × ρ)}
    (h : Gathers g ns values d r x) : x = gathered g ns values d r := by
  induction ns, values, d, r using @gather_induction ρ _ g generalizing x with
  | nil values d r =>
    cases h
    exact (gathered_of_ok (gather_nil g values d r)).symm
  | cons n ns values d r deeper behind =>
    cases h with
    | tooDeep hd =>
      refine (gathered_of_error ?_).symm
      rw [gather_cons, if_neg hd]
    | stopped hd he =>
      have hx := he.expand_eq_error fun v x hv hx => deeper hd v hv hx
      refine (gathered_of_error ?_).symm
      rw [gather_cons, if_pos hd, hx]
    | next hd he hleave hnext =>
      obtain ⟨hx, rfl⟩ := he.expand_eq_ok fun v x hv hx => deeper hd v hv hx
      cases hleave
      rw [behind _ _ hnext, gathered, gathered, gather_cons, if_pos hd, hx]

/-! ### The rules allow the recursion -/

theorem evaluates_of_gathers {g : Grammar} {n : Name} {v : Variable} (hv : g.find? n = some v)
    {d : Depth} {r : ρ} (hg : g.IsClosed)
    (h : Gathers g (v.choose r).1.references [] d (v.choose r).2
      (gathered g (v.choose r).1.references [] d (v.choose r).2)) :
    Evaluates g n d r (g.evaluateNested n d r) := by
  rw [evaluateNested_eq, expand_of_find? hv]
  cases hx : gather g (v.choose r).1.references [] d (v.choose r).2 with
  | error e =>
    obtain ⟨m, hm⟩ := limitReached_of_gather hg (fun m hm => hg.isSome_of_choose hv hm) hx
    obtain ⟨o, d', r'⟩ := e
    cases hm
    exact .stopped hv (gathered_of_error hx ▸ h)
  | ok x =>
    obtain ⟨value, hvalue⟩ := render_isOk_of_gather hx
    simp only [hvalue]
    exact .pair hv (gathered_of_ok hx ▸ h) hvalue

theorem gathers_gathered {g : Grammar} (hg : g.IsClosed) {ns : List Name}
    (hns : ∀ m ∈ ns, (g.find? m).isSome) (values : List (Name × Pair)) (d : Depth) (r : ρ) :
    Gathers g ns values d r (gathered g ns values d r) := by
  induction ns, values, d, r using @gather_induction ρ _ g with
  | nil values d r =>
    rw [gathered_of_ok (gather_nil g values d r)]
    exact .done
  | cons n ns values d r deeper behind =>
    obtain ⟨v, hv⟩ := Option.isSome_iff_exists.1 (hns n List.mem_cons_self)
    by_cases hd : d.enter.isBelowLimit
    · have he := evaluates_of_gathers hv hg
        (deeper hd v hv fun m hm => hg.isSome_of_choose hv hm)
      rw [evaluateNested_eq] at he
      rw [gathered, gather_cons, if_pos hd]
      rcases expand_cases hg (hns n List.mem_cons_self) d.enter r with
        ⟨value, r', hx⟩ | ⟨m, d', r', hx⟩
      · rw [hx] at he ⊢
        exact .next hd he rfl (behind value r' fun m hm => hns m (List.mem_cons_of_mem _ hm))
      · rw [hx] at he ⊢
        exact .stopped hd he
    · rw [gathered_of_error (by rw [gather_cons, if_neg hd])]
      exact .tooDeep hd

/-! ### Steps and rules -/

theorem Evaluates.eq_evaluateNested {g : Grammar} {n : Name} {d : Depth} {r : ρ} {e : Evaluated ρ}
    (h : Evaluates g n d r e) : g.evaluateNested n d r = e := by
  have only : ∀ v x, g.find? n = some v →
      Gathers g (v.choose r).1.references [] d (v.choose r).2 x →
      x = gathered g (v.choose r).1.references [] d (v.choose r).2 :=
    fun _ _ _ hx => hx.eq_gathered
  rw [evaluateNested_eq]
  cases h with
  | pair hv hgath hrender =>
    obtain ⟨hx, rfl⟩ := (Evaluates.pair hv hgath hrender).expand_eq_ok only
    rw [hx]
  | stopped hv hgath =>
    rw [(Evaluates.stopped hv hgath).expand_eq_error only]

theorem evaluates_evaluateNested {g : Grammar} (hg : g.IsClosed) {n : Name}
    (hn : (g.find? n).isSome) (d : Depth) (r : ρ) :
    Evaluates g n d r (g.evaluateNested n d r) := by
  obtain ⟨v, hv⟩ := Option.isSome_iff_exists.1 hn
  exact evaluates_of_gathers hv hg
    (gathers_gathered hg (fun m hm => hg.isSome_of_choose hv hm) [] d (v.choose r).2)

/-- In a closed grammar the steps on frames lead to the end that the rules allow and to no other:
to the same pair or the same limit, at the same level, by the same rolls. -/
theorem evaluates_iff_evaluate_eq {g : Grammar} (hg : g.IsClosed) {n : Name}
    (hn : (g.find? n).isSome) (d : Depth) (r : Recorded ρ) (e : Evaluated (Recorded ρ)) :
    Evaluates g n d r e ↔ g.evaluate n d r = e := by
  rw [evaluate_eq_evaluateNested]
  constructor
  · exact Evaluates.eq_evaluateNested
  · rintro rfl
    exact evaluates_evaluateNested hg hn d r

/-- Twice the variable that goes on with itself: two rolls for a total of three, and the level is
back at zero. -/
theorem evaluates_repetition :
    Grammar.repetition.IsClosed ∧ (Grammar.repetition.find? Name.output).isSome ∧
      Evaluates .repetition Name.output ⟨3, 0⟩ (⟨.ofList [2, 0] false, []⟩ : Recorded Script)
        ⟨.pair ⟨['x', ' ', 'x'], ['y', 'z']⟩, ⟨3, 0⟩, ⟨⟨[2, 0], [], false⟩, [(0, 3), (2, 3)]⟩⟩ :=
  ⟨Grammar.isClosed_repetition, by decide,
    (evaluates_iff_evaluate_eq Grammar.isClosed_repetition (by decide) _ _ _).2
      (by with_unfolding_all rfl)⟩

end PairGrammar
