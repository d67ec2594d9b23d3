import PairGrammar.Evaluation

/-!
# Evaluation by recursion

What an evaluation means, said by recursion. To evaluate a production is to gather the values of
the names that it refers to, one after the other and each one level deeper, and then to render its
two lines. What goes too deep, or comes upon a name without a variable, stops all evaluations that
are under way.

The main statement, `evaluate_eq_evaluateNested`, is that evaluation by steps is the same function:
it leads to the same outcome and leaves the same depth and the same dice.
-/

namespace PairGrammar

variable {ρ : Type} [Dice ρ]

mutual

/-- The pair of a production and the dice behind it, or how all evaluations stop. -/
def Production.evaluate (g : Grammar) (p : Production) (d : Depth) (r : ρ) :
    Except (Evaluated ρ) (Pair × ρ) :=
  match gather g p.references [] d r with
  | .error e => .error e
  | .ok (values, r') => match p.render fun n => values.lookup n with
    | .error n => .error ⟨.undefined n, d, r'⟩
    | .ok value => .ok (value, r')
termination_by (d.room, 1, 0)

/-- The values of names in front of those that there are already. -/
def gather (g : Grammar) (ns : List Name) (values : List (Name × Pair)) (d : Depth) (r : ρ) :
    Except (Evaluated ρ) (List (Name × Pair) × ρ) :=
  match ns with
  | [] => .ok (values, r)
  | n :: rest =>
    if _h : d.enter.isBelowLimit then match g.find? n with
      | none => .error ⟨.undefined n, d.enter, r⟩
      | some v => match (v.choose r).1.evaluate g d.enter (v.choose r).2 with
        | .error e => .error e
        | .ok (value, r') => gather g rest ((n, value) :: values) d r'
    else .error ⟨.limitReached d.limit n, d.enter, r⟩
termination_by (d.room, 0, ns.length)
decreasing_by
  · have := Depth.room_enter_succ _h
    exact Prod.Lex.left _ _ (by omega)
  · exact Prod.Lex.right _ (Prod.Lex.right _ (Nat.lt_succ_self _))

end

/-- Evaluates a variable by recursion. -/
def Grammar.evaluateNested (g : Grammar) (n : Name) (d : Depth) (r : ρ) : Evaluated ρ :=
  match g.find? n with
  | none => ⟨.undefined n, d, r⟩
  | some v => match (v.choose r).1.evaluate g d (v.choose r).2 with
    | .error e => e
    | .ok (value, r') => ⟨.pair value, d, r'⟩

namespace Run

/-! ### Steps follow the recursion -/

theorem finish_of_inl {g : Grammar} {r s : Run ρ} (h : r.step g = .inl s) :
    finish g r = finish g s := by
  rw [finish]
  split
  · next h' => rw [h] at h'; cases h'; rfl
  · next h' => rw [h] at h'; cases h'

theorem finish_of_inr {g : Grammar} {r : Run ρ} {e : Evaluated ρ} (h : r.step g = .inr e) :
    finish g r = e := by
  rw [finish]
  split
  · next h' => rw [h] at h'; cases h'
  · next h' => rw [h] at h'; cases h'; rfl

/-- What becomes of the frames that wait when the frame at work has its pair. -/
def give (g : Grammar) (waiting : List (Name × Frame)) (value : Pair) (d : Depth) (r : ρ) :
    Evaluated ρ :=
  match waiting with
  | [] => ⟨.pair value, d, r⟩
  | (n, f) :: waiting => match d.leave? with
    | none => ⟨.unbalanced, d, r⟩
    | some d' => finish g ⟨f.receive n value, waiting, d', r⟩

theorem finish_of_render {g : Grammar} {f : Frame} {value : Pair} (hp : f.pending = [])
    (h : f.render = .ok value) (waiting : List (Name × Frame)) (d : Depth) (r : ρ) :
    finish g ⟨f, waiting, d, r⟩ = give g waiting value d r := by
  have hs : step g ⟨f, waiting, d, r⟩ = ascend ⟨f, waiting, d, r⟩ value := by
    simp [step, hp, h]
  unfold ascend at hs
  cases waiting with
  | nil => exact finish_of_inr hs
  | cons w waiting =>
    cases hd : d.leave? with
    | none =>
      simp only [hd] at hs
      simpa [give, hd, stop] using finish_of_inr hs
    | some d' =>
      simp only [hd] at hs
      simpa [give, hd] using finish_of_inl hs

mutual

theorem finish_start (g : Grammar) (p : Production) (waiting : List (Name × Frame)) (d : Depth)
    (r : ρ) :
    finish g ⟨.start p, waiting, d, r⟩ = match p.evaluate g d r with
      | .error e => e
      | .ok (value, r') => give g waiting value d r' := by
  have := finish_frame g p p.references [] waiting d r
  rw [Frame.start, this, Production.evaluate]
  cases gather g p.references [] d r with
  | error e => rfl
  | ok x => cases h : p.render (fun n => x.1.lookup n) <;> simp [h]
termination_by (d.room, 1, 0)

theorem finish_frame (g : Grammar) (p : Production) (ns : List Name) (values : List (Name × Pair))
    (waiting : List (Name × Frame)) (d : Depth) (r : ρ) :
    finish g ⟨⟨p, ns, values⟩, waiting, d, r⟩ = match gather g ns values d r with
      | .error e => e
      | .ok (values', r') => match p.render fun n => values'.lookup n with
        | .error n => ⟨.undefined n, d, r'⟩
        | .ok value => give g waiting value d r' := by
  cases ns with
  | nil =>
    cases h : p.render (fun n => values.lookup n) with
    | error n =>
      have hs : step g ⟨⟨p, [], values⟩, waiting, d, r⟩ = .inr ⟨.undefined n, d, r⟩ := by
        have : Frame.render ⟨p, [], values⟩ = .error n := h
        simp [step, this, stop]
      simp [gather, h, finish_of_inr hs]
    | ok value =>
      have : Frame.render ⟨p, [], values⟩ = .ok value := h
      simp [gather, h, finish_of_render rfl this]
  | cons n rest =>
    rw [gather]
    have hs : step g ⟨⟨p, n :: rest, values⟩, waiting, d, r⟩ =
        descend g ⟨⟨p, n :: rest, values⟩, waiting, d, r⟩ n rest := rfl
    unfold descend at hs
    by_cases hd : d.enter.isBelowLimit
    · cases hv : g.find? n with
      | none =>
        simp only [hd, hv, if_true] at hs
        simp [hd, finish_of_inr hs, stop]
      | some v =>
        simp only [hd, hv, if_true] at hs
        have hr := Depth.room_enter_succ hd
        rw [finish_of_inl hs, finish_start g (v.choose r).1 _ d.enter]
        simp only [hd, dif_pos]
        cases he : (v.choose r).1.evaluate g d.enter (v.choose r).2 with
        | error e => rfl
        | ok x =>
          have := finish_frame g p rest ((n, x.1) :: values) waiting d x.2
          simpa [give, Frame.receive] using this
    · simp only [hd] at hs
      simp [hd, finish_of_inr hs, stop]
termination_by (d.room, 0, ns.length)

end

end Run

theorem evaluate_eq_evaluateNested (g : Grammar) (n : Name) (d : Depth) (r : ρ) :
    g.evaluate n d r = g.evaluateNested n d r := by
  unfold Grammar.evaluate Grammar.evaluateNested
  cases g.find? n with
  | none => rfl
  | some v => exact Run.finish_start g _ [] d _

end PairGrammar
