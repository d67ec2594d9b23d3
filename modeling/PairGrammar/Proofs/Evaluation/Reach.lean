import PairGrammar.Proofs.Evaluation.Choices
import PairGrammar.Proofs.Grammar.Reaching

/-!
# An evaluation stays within what its variable reaches

The frames of an evaluation refer to names to which references lead from the variable that is
evaluated, and a step looks up one of these names at most. So two grammars that agree on the
reachable variables take the same steps, whatever else they hold: they draw the same productions
by the same rolls, and come to the same end at the same level.

* `Within.step`: a step leads from frames of that kind to frames of that kind.
* `Within.step_eq`: on such frames, grammars that agree take the same step.
* `evaluate_eq_of_agree`: evaluations in grammars that agree on what the search reaches.
-/

namespace PairGrammar

variable {ρ : Type} [Dice ρ]

/-- The references of a production that has been drawn. -/
theorem Grammar.Leads.of_draw {g : Grammar} {start n : Name} (hn : g.Leads start n) {v : Variable}
    (hv : g.find? n = some v) (r : ρ) :
    ∀ m ∈ (v.draw r).1.production.references, g.Leads start m := by
  intro m hm
  have hmentions : m ∈ v.mentions := Variable.mem_mentions_of_choose (r := r) hm
  exact .step hn hv hmentions

namespace Run

/-- Every name that is still to be evaluated is one to which references lead from `start`. -/
structure Within (g : Grammar) (start : Name) (r : Run ρ) : Prop where
  frame : ∀ m ∈ r.frame.pending, g.Leads start m
  waiting : ∀ w ∈ r.waiting, ∀ m ∈ w.2.pending, g.Leads start m

namespace Within

variable {g g' : Grammar} {start : Name}

theorem step {r s : Run ρ} (h : Within g start r) (hs : r.step g = .inl s) : Within g start s := by
  rcases step_cases hs with
    ⟨n, rest, v, hp, -, hv, rfl⟩ | ⟨value, n, f, waiting, d, hp, -, hw, -, rfl⟩
  · have hn : g.Leads start n := h.frame n (by rw [hp]; exact List.mem_cons_self)
    refine ⟨hn.of_draw hv r.dice, ?_⟩
    intro w hw
    rcases List.mem_cons.1 hw with rfl | hw
    · intro m hm
      exact h.frame m (by rw [hp]; exact List.mem_cons_of_mem _ hm)
    · exact h.waiting w hw
  · have hwaiting : ∀ w ∈ (n, f) :: waiting, ∀ m ∈ w.2.pending, g.Leads start m := by
      rw [← hw]
      exact h.waiting
    obtain ⟨hf, hrest⟩ := List.forall_mem_cons.1 hwaiting
    exact ⟨hf, hrest⟩

/-- A step looks up the first name of the frame at work, and no other. -/
theorem step_eq {r : Run ρ} (h : Within g start r)
    (hg : ∀ m, g.Leads start m → g'.find? m = g.find? m) :
    r.step g' = r.step g := by
  unfold Run.step
  cases hp : r.frame.pending with
  | nil => rfl
  | cons n rest =>
    have hn : g.Leads start n := h.frame n (by rw [hp]; exact List.mem_cons_self)
    unfold descend
    dsimp only
    rw [hg n hn]

theorem finish_eq {r : Run ρ} (h : Within g start r)
    (hg : ∀ m, g.Leads start m → g'.find? m = g.find? m) :
    r.finish g' = r.finish g := by
  have heq : r.step g' = r.step g := h.step_eq hg
  cases hs : r.step g with
  | inl s =>
    rw [finish_of_inl hs, finish_of_inl (heq.trans hs)]
    exact finish_eq (h.step hs) hg
  | inr e => rw [finish_of_inr hs, finish_of_inr (heq.trans hs)]
termination_by r.cost g
decreasing_by exact cost_lt_of_step hs

theorem leads_of_choice? {r : Run ρ} (h : Within g start r) {c : Choice} (hc : r.choice? g = some c) :
    g.Leads start c.owner.name := by
  unfold choice? at hc
  split at hc
  · cases hc
  · next n rest hp =>
    split at hc
    · obtain ⟨v, hv, rfl⟩ := Option.map_eq_some_iff.1 hc
      have hn : g.Leads start n := h.frame n (by rw [hp]; exact List.mem_cons_self)
      have hname : v.name = n := (Grammar.mem_of_find? hv).2
      show g.Leads start v.name
      rw [hname]
      exact hn
    · cases hc

theorem leads_of_chosen {r : Run ρ} (h : Within g start r) :
    ∀ c ∈ r.chosen g, g.Leads start c.owner.name := by
  intro c hc
  cases hs : r.step g with
  | inl s =>
    rw [chosen_of_inl hs] at hc
    rcases List.mem_append.1 hc with hc | hc
    · exact h.leads_of_choice? (Option.mem_toList.1 hc)
    · exact leads_of_chosen (h.step hs) c hc
  | inr e =>
    rw [chosen_of_inr hs] at hc
    cases hc
termination_by r.cost g
decreasing_by exact cost_lt_of_step hs

/-- The first frame of an evaluation. -/
theorem start_draw {v : Variable} (hv : g.find? start = some v) (d : Depth) (r : ρ) :
    Within g start (Run.start (v.draw r).1.production d (v.draw r).2) where
  frame := Grammar.Leads.refl.of_draw hv r
  waiting := by
    intro w hw
    cases hw

end Within

end Run

/-- An evaluation turns to no variable but those to which references lead. -/
theorem leads_of_chosen {g : Grammar} {n : Name} {d : Depth} {r : ρ} :
    ∀ c ∈ g.chosen n d r, g.Leads n c.owner.name := by
  intro c hc
  unfold Grammar.chosen at hc
  cases hv : g.find? n with
  | none =>
    rw [hv] at hc
    cases hc
  | some v =>
    rw [hv] at hc
    rcases List.mem_cons.1 hc with rfl | hc
    · have hname : v.name = n := (Grammar.mem_of_find? hv).2
      show g.Leads n v.name
      rw [hname]
      exact .refl
    · exact (Run.Within.start_draw hv d r).leads_of_chosen c hc

/-- Grammars that agree on the names to which references lead evaluate alike. -/
theorem evaluate_eq_of_leads {g g' : Grammar} {n : Name}
    (h : ∀ m, g.Leads n m → g'.find? m = g.find? m) (d : Depth) (r : ρ) :
    g'.evaluate n d r = g.evaluate n d r := by
  unfold Grammar.evaluate
  rw [h n .refl]
  cases hv : g.find? n with
  | none => rfl
  | some v => exact (Run.Within.start_draw hv d r).finish_eq h

/-- The search finds all variables that an evaluation may turn to, and what other variables a grammar
holds makes no difference to the evaluation: neither to its end and the level behind it nor to the
rolls that it makes. -/
theorem evaluate_eq_of_agree {g : Grammar} (hg : g.IsClosed) {n : Name}
    (hn : (g.find? n).isSome) :
    ∃ names, g.reachable n = .ok names ∧ ∀ (d : Depth) (r : Recorded ρ),
      (∀ c ∈ g.chosen n d r, c.owner.name ∈ names) ∧
        ∀ g' : Grammar, (∀ m ∈ names, g'.find? m = g.find? m) →
          g'.evaluate n d r = g.evaluate n d r := by
  obtain ⟨names, hnames, -, hmem⟩ := Grammar.exists_reachable hg hn
  refine ⟨names, hnames, fun d r => ⟨?_, ?_⟩⟩
  · intro c hc
    exact (hmem _).2 (leads_of_chosen c hc)
  · intro g' hagree
    apply evaluate_eq_of_leads
    intro m hm
    exact hagree m ((hmem m).2 hm)

namespace Grammar

/-- References lead from `output` to `a` and back, and from `b` to both. -/
def detour : Grammar where
  vocabulary := [
    ⟨Name.output, [(⟨[.reference ['a']], [.literal ['y']]⟩, 1), (⟨[.literal ['x']], []⟩, 2)],
      List.cons_ne_nil _ _⟩,
    ⟨['a'], [(⟨[.literal ['z']], [.reference Name.output]⟩, 1)], List.cons_ne_nil _ _⟩,
    ⟨['b'], [(⟨[.reference ['a']], [.reference Name.output]⟩, 1)], List.cons_ne_nil _ _⟩]
  root := Name.output
  root_mem := ⟨_, List.mem_cons_self, rfl⟩

/-- The variables `output` and `a` of `detour` in another place, with another `b`, which refers to
the name of no variable. -/
def rerouted : Grammar where
  vocabulary := [
    ⟨['b'], [(⟨[.reference ['c']], []⟩, 3), (⟨[], []⟩, 0)], List.cons_ne_nil _ _⟩,
    ⟨['a'], [(⟨[.literal ['z']], [.reference Name.output]⟩, 1)], List.cons_ne_nil _ _⟩,
    ⟨Name.output, [(⟨[.reference ['a']], [.literal ['y']]⟩, 1), (⟨[.literal ['x']], []⟩, 2)],
      List.cons_ne_nil _ _⟩]
  root := ['b']
  root_mem := ⟨_, List.mem_cons_self, rfl⟩

end Grammar

theorem evaluate_eq_of_agree_rerouted :
    Grammar.detour.IsClosed ∧ (Grammar.detour.find? Name.output).isSome ∧
      Grammar.detour.reachable Name.output = .ok [['a'], Name.output] ∧
      (∀ m ∈ [['a'], Name.output], Grammar.rerouted.find? m = Grammar.detour.find? m) ∧
      ∀ (d : Depth) (r : Recorded Script),
        (∀ c ∈ Grammar.detour.chosen Name.output d r, c.owner.name ∈ [['a'], Name.output]) ∧
          Grammar.rerouted.evaluate Name.output d r =
            Grammar.detour.evaluate Name.output d r := by
  have hclosed : Grammar.detour.IsClosed := Grammar.isClosed_of_vocabulary (by decide)
  have hsome : (Grammar.detour.find? Name.output).isSome := by decide
  have hreachable : Grammar.detour.reachable Name.output = .ok [['a'], Name.output] := by
    with_unfolding_all rfl
  have hagree : ∀ m ∈ [['a'], Name.output],
      Grammar.rerouted.find? m = Grammar.detour.find? m := by decide
  refine ⟨hclosed, hsome, hreachable, hagree, fun d r => ?_⟩
  obtain ⟨names, hnames, h⟩ := evaluate_eq_of_agree (ρ := Script) hclosed hsome
  rw [hreachable] at hnames
  cases hnames
  exact ⟨(h d r).1, (h d r).2 Grammar.rerouted hagree⟩

end PairGrammar
