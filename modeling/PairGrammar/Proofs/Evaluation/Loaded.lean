import PairGrammar.Proofs.Derivation.Counting
import PairGrammar.Proofs.Loader.Origin

/-!
# Evaluation in grammars that have been loaded

An evaluation may come upon a name without a variable, upon a reference without a value, or upon a
level that cannot be left; and dice might be rolled for a total below which there is no number. In
a grammar that has been loaded none of this happens. The grammar is closed, whatever its sources
held at their two readings, so an evaluation ends with a pair or at the limit; and a roll is made
for the total of a sampler, which is positive.

* `exists_totals`: the totals that an evaluation rolls dice for.
* `evaluate_of_loadRules`: how evaluations in loaded grammars end.
-/

namespace PairGrammar

variable {ρ : Type} [Dice ρ]

theorem Choice.total_pos (c : Choice) : 0 < c.total := c.owner.sampler.total_pos

/-- All dice that an evaluation rolls are rolled for a positive total. -/
theorem exists_totals (g : Grammar) (n : Name) (d : Depth) (r : Recorded ρ) :
    ∃ ts, (∀ t ∈ ts, 0 < t) ∧
      (g.evaluate n d r).dice.rolls.map Prod.snd = ts ++ r.rolls.map Prod.snd := by
  refine ⟨(totals (g.chosen n d r)).reverse, fun t ht => ?_, rolls_of_draws (g.draws_chosen n d r)⟩
  obtain ⟨c, -, rfl⟩ := List.mem_map.1 (List.mem_reverse.1 ht)
  exact c.total_pos

/-- In a closed grammar an evaluation ends with a pair or at the limit. -/
theorem outcome_of_isClosed {g : Grammar} (hg : g.IsClosed) {n : Name} (hn : (g.find? n).isSome)
    (d : Depth) (r : ρ) :
    (∃ value, (g.evaluate n d r).outcome = .pair value) ∨
      ∃ m, (g.evaluate n d r).outcome = .limitReached d.limit m := by
  rw [evaluate_eq_evaluateNested, evaluateNested_eq]
  rcases expand_cases hg hn d r with ⟨value, r', hx⟩ | ⟨m, d', r', hx⟩
  · rw [hx]
    exact .inl ⟨value, rfl⟩
  · rw [hx]
    exact .inr ⟨m, rfl⟩

/-- Evaluating a variable of a grammar that has been loaded, from sources that may have changed
while they were read, ends with a pair or at the limit that is in force; and dice are rolled for
positive totals only. -/
theorem evaluate_of_loadRules {ss : List Source} {root : Name} {g : Grammar}
    (hg : loadRules ss root = .ok g) {n : Name} (hn : n ∈ g.names) (d : Depth) (r : Recorded ρ) :
    ((∃ value, (g.evaluate n d r).outcome = .pair value) ∨
      ∃ m, (g.evaluate n d r).outcome = .limitReached d.limit m) ∧
    ∃ ts, (∀ t ∈ ts, 0 < t) ∧
      (g.evaluate n d r).dice.rolls.map Prod.snd = ts ++ r.rolls.map Prod.snd := by
  have hsome : (g.find? n).isSome := Grammar.isSome_find?_of_mem_names hn
  exact ⟨outcome_of_isClosed (isClosed_of_loadRules hg) hsome d r, exists_totals g n d r⟩

/-- When it is read for the second time, the source gives its blocks in another order, with other
lines and one block more. A number below zero leads to a production of weight zero, once to a pair
and again and again to the limit. -/
theorem evaluate_changed_source :
    let ss : List Source := [.ofTexts "rules.iski"
      ["#output\n_a x\ny\n#a\n_output\n##empty".toList,
        "#a weight 0\n##empty\nb _output\n#output\n_a_a\n##empty\n#a\nc\n##empty".toList]]
    let once : Recorded Script := ⟨.ofList [-1, 0] false, []⟩
    let always : Recorded Script := ⟨.ofList [-1] false, []⟩
    ∃ g, loadRules ss = .ok g ∧ ['a'] ∈ g.names ∧
      (g.evaluate ['a'] ⟨3, 0⟩ once).outcome = .pair ⟨[], ['b']⟩ ∧
      (g.evaluate ['a'] ⟨3, 0⟩ always).outcome = .limitReached 3 Name.output ∧
      ∃ ts, (∀ t ∈ ts, 0 < t) ∧
        (g.evaluate ['a'] ⟨3, 0⟩ always).dice.rolls.map Prod.snd = ts ++ [] := by
  intro ss once always
  have hload : (loadRules ss).map (fun g => (g.names, (g.evaluate ['a'] ⟨3, 0⟩ once).outcome,
      (g.evaluate ['a'] ⟨3, 0⟩ always).outcome)) = .ok ([Name.output, ['a']],
        .pair ⟨[], ['b']⟩, .limitReached 3 Name.output) := by decide +kernel
  obtain ⟨g, hg, hparts⟩ := Piece.map_eq_ok hload
  obtain ⟨hnames, hpair, hlimit⟩ : g.names = [Name.output, ['a']] ∧
      (g.evaluate ['a'] ⟨3, 0⟩ once).outcome = .pair ⟨[], ['b']⟩ ∧
      (g.evaluate ['a'] ⟨3, 0⟩ always).outcome = .limitReached 3 Name.output := by
    simpa using hparts.symm
  have hn : ['a'] ∈ g.names := by
    rw [hnames]
    decide
  exact ⟨g, hg, hn, hpair, hlimit, (evaluate_of_loadRules hg hn ⟨3, 0⟩ always).2⟩

end PairGrammar
