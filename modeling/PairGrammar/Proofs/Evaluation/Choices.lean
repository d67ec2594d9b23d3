import PairGrammar.Evaluation.Recursive

/-!
# What an evaluation chooses

An evaluation comes to choices one after the other: at each variable that it turns to it draws the
position of one production. `Grammar.chosen` lists them in the order of time, as the steps on
frames make them. `Draws` says of dice that they give listed choices one after the other, and
`Run.Leads` that a run comes to another one with listed choices on the way.

* `Run.step_cases`: a step that does not end an evaluation goes down to a variable or up to a frame.
* `Run.draws_chosen`: the dice that are left over are those behind the choices that were made.
* `Run.Leads.finish_eq`, `Run.Leads.chosen_eq`: a run ends as the one that it leads to, and makes
  the choices on the way besides those of the latter.
-/

namespace PairGrammar

/-- A production of a variable, by its position. -/
structure Choice where
  owner : Variable
  position : Fin owner.entries.length

namespace Choice

def production (c : Choice) : Production := (c.owner.entries.get c.position).1

/-- Whether there are other productions that might be chosen. -/
def isOpen (c : Choice) : Bool := 2 ≤ c.owner.entries.length

def total (c : Choice) : Nat := c.owner.sampler.total

/-- The weight of the production, or one if all weights of its variable are zero. -/
def weight (c : Choice) : Nat :=
  if c.owner.weights.all (· == 0) then 1 else (c.owner.entries.get c.position).2

end Choice

variable {ρ : Type} [Dice ρ]

theorem Variable.draw_lt (v : Variable) (r : ρ) : (v.sampler.draw r).1 < v.entries.length := by
  rw [← v.length_sampler]
  exact v.sampler.draw_lt r

/-- The choice that dice make of a production, and the dice behind it. -/
def Variable.draw (v : Variable) (r : ρ) : Choice × ρ :=
  (⟨v, ⟨(v.sampler.draw r).1, v.draw_lt r⟩⟩, (v.sampler.draw r).2)

theorem Variable.choose_eq (v : Variable) (r : ρ) :
    v.choose r = ((v.draw r).1.production, (v.draw r).2) := rfl

theorem Choice.draw_eq_iff (c : Choice) (r : ρ) :
    (c.owner.draw r).1 = c ↔ (c.owner.sampler.draw r).1 = c.position := by
  obtain ⟨v, i⟩ := c
  simp [Variable.draw, Fin.ext_iff]

/-- `Draws cs r r'`: the dice `r` make the choices `cs` one after the other and are `r'` then. -/
inductive Draws : List Choice → ρ → ρ → Prop
  | nil (r : ρ) : Draws [] r r
  | cons {c : Choice} {cs : List Choice} {r r' : ρ} (first : (c.owner.draw r).1 = c)
      (rest : Draws cs (c.owner.draw r).2 r') : Draws (c :: cs) r r'

theorem Draws.singleton (v : Variable) (r : ρ) : Draws [(v.draw r).1] r (v.draw r).2 :=
  .cons rfl (.nil _)

theorem draws_append {cs ds : List Choice} {r r'' : ρ} :
    Draws (cs ++ ds) r r'' ↔ ∃ r', Draws cs r r' ∧ Draws ds r' r'' := by
  induction cs generalizing r with
  | nil =>
    constructor
    · intro h
      exact ⟨r, .nil r, h⟩
    · rintro ⟨r', hc, hd⟩
      cases hc
      exact hd
  | cons c cs ih =>
    constructor
    · intro h
      cases h with
      | cons first rest =>
        obtain ⟨r', hc, hd⟩ := ih.1 rest
        exact ⟨r', .cons first hc, hd⟩
    · rintro ⟨r', hc, hd⟩
      cases hc with
      | cons first rest => exact .cons first (ih.2 ⟨r', rest, hd⟩)

namespace Run

/-! ### Steps that do not end an evaluation -/

/-- Such a step goes down to a variable that the frame at work refers to, or gives the pair of the
frame at work to the frame that waits for it. -/
theorem step_cases {g : Grammar} {r s : Run ρ} (h : r.step g = .inl s) :
    (∃ n rest v, r.frame.pending = n :: rest ∧ r.depth.enter.isBelowLimit ∧ g.find? n = some v ∧
      s = ⟨.start (v.draw r.dice).1.production, (n, { r.frame with pending := rest }) :: r.waiting,
        r.depth.enter, (v.draw r.dice).2⟩) ∨
    ∃ value n f waiting d, r.frame.pending = [] ∧ r.frame.render = .ok value ∧
      r.waiting = (n, f) :: waiting ∧ r.depth.leave? = some d ∧
      s = ⟨f.receive n value, waiting, d, r.dice⟩ := by
  unfold step at h
  split at h
  · next n rest hp =>
    unfold descend at h
    dsimp only at h
    split at h
    · next hd =>
      split at h
      · cases h
      · next v hv =>
        cases h
        exact .inl ⟨n, rest, v, hp, hd, hv, rfl⟩
    · cases h
  · next hp =>
    split at h
    · cases h
    · next value hr =>
      unfold ascend at h
      split at h
      · cases h
      · next n f waiting hw =>
        split at h
        · cases h
        · next d hd =>
          cases h
          exact .inr ⟨value, n, f, waiting, d, hp, hr, hw, hd, rfl⟩

/-- The choice that the next step makes, if it turns to a variable. -/
def choice? (g : Grammar) (r : Run ρ) : Option Choice :=
  match r.frame.pending with
  | [] => none
  | n :: _ =>
    if r.depth.enter.isBelowLimit then (g.find? n).map fun v => (v.draw r.dice).1 else none

theorem draws_choice? {g : Grammar} {r s : Run ρ} (h : r.step g = .inl s) :
    Draws (r.choice? g).toList r.dice s.dice := by
  rcases step_cases h with
    ⟨n, rest, v, hp, hd, hv, rfl⟩ | ⟨value, n, f, waiting, d, hp, -, -, -, rfl⟩
  · simp only [choice?, hp, hd, hv, if_true, Option.map_some, Option.toList_some]
    exact .singleton v r.dice
  · simp only [choice?, hp, Option.toList_none]
    exact .nil r.dice

/-- A step that ends an evaluation chooses nothing and leaves the dice alone. -/
theorem choice?_of_inr {g : Grammar} {r : Run ρ} {e : Evaluated ρ} (h : r.step g = .inr e) :
    r.choice? g = none ∧ e.dice = r.dice := by
  unfold step at h
  unfold choice?
  split at h
  · next n rest hp =>
    simp only [hp]
    unfold descend at h
    dsimp only at h
    split at h
    · next hd =>
      split at h
      · next hv =>
        cases h
        simp [hd, hv, stop]
      · cases h
    · next hd =>
      cases h
      simp [hd, stop]
  · next hp =>
    simp only [hp, true_and]
    split at h
    · cases h
      rfl
    · unfold ascend at h
      split at h
      · cases h
        rfl
      · split at h
        · cases h
          rfl
        · cases h

/-! ### Choices in the order of time -/

/-- The choices up to the end. -/
def chosen (g : Grammar) (r : Run ρ) : List Choice :=
  (r.choice? g).toList ++ match _h : r.step g with
    | .inl s => chosen g s
    | .inr _ => []
termination_by r.cost g
decreasing_by exact cost_lt_of_step _h

theorem chosen_of_inl {g : Grammar} {r s : Run ρ} (h : r.step g = .inl s) :
    chosen g r = (r.choice? g).toList ++ chosen g s := by
  rw [chosen]
  split
  · next h' => rw [h] at h'; cases h'; rfl
  · next h' => rw [h] at h'; cases h'

theorem chosen_of_inr {g : Grammar} {r : Run ρ} {e : Evaluated ρ} (h : r.step g = .inr e) :
    chosen g r = [] := by
  rw [chosen, (choice?_of_inr h).1]
  split
  · next h' => rw [h] at h'; cases h'
  · rfl

theorem draws_chosen (g : Grammar) (r : Run ρ) :
    Draws (r.chosen g) r.dice (r.finish g).dice := by
  cases hs : r.step g with
  | inl s =>
    rw [chosen_of_inl hs, finish_of_inl hs]
    exact draws_append.2 ⟨s.dice, draws_choice? hs, draws_chosen g s⟩
  | inr e =>
    rw [chosen_of_inr hs, finish_of_inr hs, (choice?_of_inr hs).2]
    exact .nil r.dice
termination_by r.cost g
decreasing_by exact cost_lt_of_step hs

/-- `Leads g r cs s`: steps lead from `r` to `s`, and make the choices `cs` on the way. -/
inductive Leads (g : Grammar) : Run ρ → List Choice → Run ρ → Prop
  | refl (r : Run ρ) : Leads g r [] r
  | step {r s t : Run ρ} {cs : List Choice} (first : r.step g = .inl s) (rest : Leads g s cs t) :
      Leads g r ((r.choice? g).toList ++ cs) t

namespace Leads

variable {g : Grammar} {r s t : Run ρ} {cs ds : List Choice}

theorem trans (h : Leads g r cs s) (h' : Leads g s ds t) : Leads g r (cs ++ ds) t := by
  induction h with
  | refl r => exact h'
  | step first _ ih =>
    rw [List.append_assoc]
    exact .step first (ih h')

theorem finish_eq (h : Leads g r cs s) : r.finish g = s.finish g := by
  induction h with
  | refl r => rfl
  | step first _ ih => rw [finish_of_inl first, ih]

theorem chosen_eq (h : Leads g r cs s) : r.chosen g = cs ++ s.chosen g := by
  induction h with
  | refl r => rfl
  | step first _ ih => rw [chosen_of_inl first, ih, List.append_assoc]

/-- One step down. -/
theorem descend {n : Name} {v : Variable} {d : Depth} (p : Production) (rest : List Name)
    (values : List (Name × Pair)) (waiting : List (Name × Frame)) (r : ρ)
    (hd : d.enter.isBelowLimit) (hv : g.find? n = some v) :
    Leads g ⟨⟨p, n :: rest, values⟩, waiting, d, r⟩ [(v.draw r).1]
      ⟨.start (v.draw r).1.production, (n, ⟨p, rest, values⟩) :: waiting, d.enter,
        (v.draw r).2⟩ := by
  have hs : Run.step g ⟨⟨p, n :: rest, values⟩, waiting, d, r⟩ =
      .inl ⟨.start (v.draw r).1.production, (n, ⟨p, rest, values⟩) :: waiting, d.enter,
        (v.draw r).2⟩ := by
    simp only [Run.step, Run.descend, hd, hv, if_true, Variable.choose_eq]
  have hc : Run.choice? g ⟨⟨p, n :: rest, values⟩, waiting, d, r⟩ = some (v.draw r).1 := by
    simp only [choice?, hd, hv, if_true, Option.map_some]
  have h := Leads.step hs (.refl _)
  rw [hc] at h
  exact h

/-- One step up. -/
theorem ascend {p : Production} {values : List (Name × Pair)} {value : Pair} (n : Name) (f : Frame)
    (waiting : List (Name × Frame)) (d : Depth) (r : ρ)
    (hr : p.render (fun m => values.lookup m) = .ok value) :
    Leads g ⟨⟨p, [], values⟩, (n, f) :: waiting, d.enter, r⟩ []
      ⟨f.receive n value, waiting, d, r⟩ := by
  have hrender : Frame.render ⟨p, [], values⟩ = .ok value := hr
  have hs : Run.step g ⟨⟨p, [], values⟩, (n, f) :: waiting, d.enter, r⟩ =
      .inl ⟨f.receive n value, waiting, d, r⟩ := by
    simp only [Run.step, hrender, Run.ascend, Depth.leave?_enter]
  exact .step hs (.refl _)

end Leads

end Run

namespace Grammar

/-- The choices of an evaluation, in the order of time. -/
def chosen (g : Grammar) (n : Name) (d : Depth) (r : ρ) : List Choice :=
  match g.find? n with
  | none => []
  | some v => (v.draw r).1 :: (Run.start (v.draw r).1.production d (v.draw r).2).chosen g

theorem draws_chosen (g : Grammar) (n : Name) (d : Depth) (r : ρ) :
    Draws (g.chosen n d r) r (g.evaluate n d r).dice := by
  unfold chosen evaluate
  cases g.find? n with
  | none => exact .nil r
  | some v => exact .cons rfl (Run.draws_chosen g _)

end Grammar

end PairGrammar
