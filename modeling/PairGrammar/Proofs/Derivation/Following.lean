import PairGrammar.Proofs.Derivation.Tree
import PairGrammar.Proofs.Evaluation.Gather

/-!
# Evaluations and derivation trees

An evaluation follows a derivation tree if it makes the choices of the tree, and no others, one
after the other. If the level limit admits the height of the tree, this is up to the dice alone, and
the evaluation ends with the texts of the tree. In turn each evaluation that ends with a pair
follows a derivation tree.

* `Derivations.leads`: the frames go through the parts of a tree, with their choices on the way.
* `Derivation.evaluate_of_draws`: what becomes of an evaluation whose dice give the choices of a
  tree.
* `Derivation.isFollowed_iff`: an evaluation follows a tree if and only if the dice do.
* `exists_derivation`: a pair comes from a derivation tree that the limit admits.
-/

namespace PairGrammar

variable {ρ : Type} [Dice ρ] {g : Grammar}

/-! ### Heights below a limit -/

/-- Whether a tree of height `h` does not meet the limit. -/
def Depth.Admits (d : Depth) (h : Nat) : Prop := h = 0 ∨ ((d.level + h : Nat) : Int) < d.limit

theorem Depth.admits_zero (d : Depth) : d.Admits 0 := .inl rfl

theorem Depth.isBelowLimit_enter (d : Depth) :
    d.enter.isBelowLimit ↔ ((d.level + 1 : Nat) : Int) < d.limit := decide_eq_true_iff

theorem Depth.admits_max {d : Depth} {h k : Nat} :
    d.Admits (max (h + 1) k) ↔ d.enter.isBelowLimit ∧ d.enter.Admits h ∧ d.Admits k := by
  rw [Depth.isBelowLimit_enter]
  simp only [Depth.Admits, Depth.enter]
  omega

/-! ### Frames go through a tree -/

mutual

/-- The frame at work turns to a name and receives the pair of its tree. -/
theorem Derivation.leads {n : Name} (t : Derivation g n) {d : Depth} {r r' : ρ} {value : Pair}
    (hd : d.enter.isBelowLimit) (ht : d.enter.Admits t.height) (hr : Draws t.choices r r')
    (hv : t.render = .ok value) (p : Production) (rest : List Name) (values : List (Name × Pair))
    (waiting : List (Name × Frame)) :
    Run.Leads g ⟨⟨p, n :: rest, values⟩, waiting, d, r⟩ t.choices
      ⟨⟨p, rest, (n, value) :: values⟩, waiting, d, r'⟩ := by
  match t with
  | .node (v := v) known i parts =>
    obtain ⟨inner, hi, -⟩ := parts.render_isOk
    rw [Derivation.render_node known i hi] at hv
    cases hr with
    | cons first hrest =>
      have down := Run.Leads.descend p rest values waiting r hd known
      rw [first] at down
      have across := parts.leads ht hrest hi (v.entries.get i).1 [] []
        ((n, ⟨p, rest, values⟩) :: waiting)
      rw [List.append_nil, List.append_nil] at across
      have up := Run.Leads.ascend (g := g) n ⟨p, rest, values⟩ waiting d r' hv
      have whole := down.trans (across.trans up)
      rw [List.append_nil] at whole
      exact whole

/-- The frame at work goes through the names of parts and receives their pairs. -/
theorem Derivations.leads {ns : List Name} (ts : Derivations g ns) {d : Depth} {r r' : ρ}
    {inner : List (Name × Pair)} (ht : d.Admits ts.height) (hr : Draws ts.choices r r')
    (hv : ts.render = .ok inner) (p : Production) (rest : List Name) (values : List (Name × Pair))
    (waiting : List (Name × Frame)) :
    Run.Leads g ⟨⟨p, ns ++ rest, values⟩, waiting, d, r⟩ ts.choices
      ⟨⟨p, rest, inner ++ values⟩, waiting, d, r'⟩ := by
  match ts with
  | .nil =>
    cases hr
    cases hv
    exact .refl _
  | .cons (n := n) first behind =>
    obtain ⟨hd, hfirst, hbehind⟩ := Depth.admits_max.1 ht
    obtain ⟨r₁, hr₁, hr₂⟩ := draws_append.1 hr
    obtain ⟨value, hf⟩ := first.render_isOk
    obtain ⟨inner', hb, -⟩ := behind.render_isOk
    simp only [Derivations.render, hf, hb] at hv
    cases hv
    have h := (first.leads hd hfirst hr₁ hf p _ values waiting).trans
      (behind.leads hbehind hr₂ hb p rest ((n, value) :: values) waiting)
    rw [List.append_assoc, List.singleton_append]
    exact h

end

variable {d : Depth} {r r' : ρ}

/-- Dice that give the choices of a tree make the evaluation follow it and end with its texts, at
the level at which it started. -/
theorem Derivation.evaluate_of_draws {n : Name} (t : Derivation g n) {value : Pair}
    (ht : d.Admits t.height) (hr : Draws t.choices r r') (hv : t.render = .ok value) :
    g.chosen n d r = t.choices ∧ g.evaluate n d r = ⟨.pair value, d, r'⟩ := by
  match t with
  | .node (v := v) known i parts =>
    obtain ⟨inner, hi, -⟩ := parts.render_isOk
    rw [Derivation.render_node known i hi] at hv
    cases hr with
    | cons first hrest =>
      have across := parts.leads ht hrest hi (v.entries.get i).1 [] [] []
      rw [List.append_nil, List.append_nil] at across
      have last : Run.step g ⟨⟨(v.entries.get i).1, [], inner⟩, [], d, r'⟩ =
          .inr ⟨.pair value, d, r'⟩ := by
        have hrender : Frame.render ⟨(v.entries.get i).1, [], inner⟩ = .ok value := hv
        simp only [Run.step, hrender, Run.ascend, Run.stop]
      constructor
      · have h := across.chosen_eq
        rw [Run.chosen_of_inr last, List.append_nil] at h
        simp only [Grammar.chosen, known, first]
        exact congrArg (_ :: ·) h
      · have h := across.finish_eq
        rw [Run.finish_of_inr last] at h
        simp only [Grammar.evaluate, known, Variable.choose_eq, first]
        exact h

/-- The evaluation makes the choices of the tree one after the other, and no others. -/
def Derivation.IsFollowed {n : Name} (t : Derivation g n) (d : Depth) (r : ρ) : Prop :=
  g.chosen n d r = t.choices

/-- An evaluation follows a tree that the limit admits if and only if the dice do. -/
theorem Derivation.isFollowed_iff {n : Name} (t : Derivation g n) (ht : d.Admits t.height) :
    t.IsFollowed d r ↔ ∃ r', Draws t.choices r r' := by
  constructor
  · intro h
    have hdraws := g.draws_chosen n d r
    rw [h] at hdraws
    exact ⟨_, hdraws⟩
  · rintro ⟨r', hr⟩
    obtain ⟨value, hv⟩ := t.render_isOk
    exact (t.evaluate_of_draws ht hr hv).1

/-! ### Each pair comes from a tree -/

/-- A tree of a variable from the parts of the production that is drawn. -/
theorem exists_derivation_of_expand {n : Name} {value : Pair}
    (h : g.expand n d r = .ok (value, r'))
    (parts : ∀ v, g.find? n = some v → ∀ {r₁ values},
      gather g (v.choose r).1.references [] d (v.choose r).2 = .ok (values, r₁) →
      ∃ (ts : Derivations g (v.choose r).1.references) (inner : List (Name × Pair)),
        ts.render = .ok inner ∧ values = inner ++ [] ∧ Draws ts.choices (v.choose r).2 r₁ ∧
          d.Admits ts.height) :
    ∃ t : Derivation g n, t.render = .ok value ∧ Draws t.choices r r' ∧ d.Admits t.height := by
  cases hn : g.find? n with
  | none =>
    rw [Grammar.expand, hn] at h
    cases h
  | some v =>
    rw [expand_of_find? hn] at h
    cases hg : gather g (v.choose r).1.references [] d (v.choose r).2 with
    | error e =>
      rw [hg] at h
      cases h
    | ok x =>
      obtain ⟨ts, inner, hts, hx, hdraws, hheight⟩ := parts v hn hg
      rw [← List.append_nil inner, ← hx] at hts
      simp only [hg] at h
      cases hp : (v.choose r).1.render (fun m => x.1.lookup m) with
      | error m =>
        rw [hp] at h
        cases h
      | ok value' =>
        rw [hp] at h
        cases h
        exact ⟨.node hn (v.draw r).1.position ts, (Derivation.render_node hn _ hts).trans hp,
          .cons rfl hdraws, hheight⟩

/-- Names that have been gone through have trees, from which their pairs come. -/
theorem exists_derivations {ns : List Name} {values values' : List (Name × Pair)}
    (h : gather g ns values d r = .ok (values', r')) :
    ∃ (ts : Derivations g ns) (inner : List (Name × Pair)), ts.render = .ok inner ∧
      values' = inner ++ values ∧ Draws ts.choices r r' ∧ d.Admits ts.height := by
  induction ns, values, d, r using @gather_induction ρ _ g generalizing values' r' with
  | nil values d r =>
    rw [gather_nil] at h
    cases h
    exact ⟨.nil, [], rfl, rfl, .nil r, d.admits_zero⟩
  | cons n ns values d r deeper behind =>
    rw [gather_cons] at h
    split at h
    · next hd =>
      cases he : g.expand n d.enter r with
      | error e =>
        rw [he] at h
        cases h
      | ok x =>
        simp only [he] at h
        obtain ⟨t, ht, hdraws, hheight⟩ := exists_derivation_of_expand he (deeper hd)
        obtain ⟨ts, inner, hts, rfl, hdraws', hheight'⟩ := behind x.1 x.2 h
        refine ⟨.cons t ts, inner ++ [(n, x.1)], ?_, ?_, draws_append.2 ⟨x.2, hdraws, hdraws'⟩,
          Depth.admits_max.2 ⟨hd, hheight, hheight'⟩⟩
        · simp only [Derivations.render, ht, hts]
        · rw [List.append_assoc, List.singleton_append]
    · cases h

/-- A pair comes from a derivation tree that the limit admits and that the dice follow. -/
theorem exists_derivation (hg : g.IsClosed) {n : Name} (hn : (g.find? n).isSome) {value : Pair}
    {d' : Depth} (h : g.evaluate n d r = ⟨.pair value, d', r'⟩) :
    ∃ t : Derivation g n, d.Admits t.height ∧ t.render = .ok value ∧ Draws t.choices r r' := by
  rw [evaluate_eq_evaluateNested, evaluateNested_eq] at h
  rcases expand_cases hg hn d r with ⟨value', r₁, hx⟩ | ⟨m, d₁, r₁, hx⟩
  · rw [hx] at h
    cases h
    obtain ⟨t, ht, hdraws, hheight⟩ := exists_derivation_of_expand hx fun _ _ => exists_derivations
    exact ⟨t, hheight, ht, hdraws⟩
  · rw [hx] at h
    cases h

end PairGrammar
