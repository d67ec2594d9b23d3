import PairGrammar.Proofs.Loader.Loading

/-!
# What can be loaded

Sources that do not change can be loaded if and only if their lines are a rule set: skipped lines
and complete blocks, headers that can be read, content lines in which every reference is declared
by some block of some source, a block for the root, and weights that stay in range for each name.
The grammar is then the one that the rules make, in the order of the sources and their lines.
-/

namespace PairGrammar

/-- Loading succeeds on rule sets and on nothing else, and gives the grammar of the rules. -/
theorem loadRules_isOk_iff {ss : List Source} {texts : List (List Text)}
    (h : List.Forall₂ Source.Holds ss texts) (root : Name) :
    ((∃ g, loadRules ss root = .ok g) ↔ ∃ rs, RuleSet texts root rs) ∧
      ∀ g rs, loadRules ss root = .ok g → RuleSet texts root rs → g.Holds root rs := by
  refine ⟨⟨?_, ?_⟩, ?_⟩
  · rintro ⟨g, hg⟩
    obtain ⟨rs, hrs, -⟩ := ruleSet_of_loadRules h hg
    exact ⟨rs, hrs⟩
  · rintro ⟨rs, hrs⟩
    obtain ⟨g, hg, -⟩ := loadRules_of_ruleSet h hrs
    exact ⟨g, hg⟩
  · intro g rs hg hrs
    obtain ⟨g', hg', hholds⟩ := loadRules_of_ruleSet h hrs
    rw [hg] at hg'
    cases hg'
    exact hholds

/-- Two sources: `a` refers to a name of the second one, where a comment stands before a block
without natural text. -/
theorem loadRules_two_sources :
    let ss : List Source :=
      [⟨"one", .ok [['#', 'a'], [' ', '_', 'b'], ['y']], []⟩,
        ⟨"two", .ok [['n', 'o'], ['#', 'b', ' ', 'w', 'e', 'i', 'g', 'h', 't', ' ', '7'],
          Header.emptyLine, ['1', '_', 'a']], []⟩]
    let rs : List Rule :=
      [⟨⟨['a'], 1⟩, ⟨[.reference ['b']], [.literal ['y']]⟩⟩,
        ⟨⟨['b'], 7⟩, ⟨[], [.literal ['1'], .reference ['a']]⟩⟩]
    ∃ g, loadRules ss ['a'] = .ok g ∧ g.Holds ['a'] rs := by
  intro ss rs
  let texts : List (List Text) :=
    [[['#', 'a'], [' ', '_', 'b'], ['y']],
      [['n', 'o'], ['#', 'b', ' ', 'w', 'e', 'i', 'g', 'h', 't', ' ', '7'],
        Header.emptyLine, ['1', '_', 'a']]]
  have hold : List.Forall₂ Source.Holds ss texts :=
    .cons ⟨rfl, by simp⟩ (.cons ⟨rfl, by simp⟩ .nil)
  have hblocks : List.Forall₂ Layout texts _ :=
    .cons (.block (by decide) (by decide) (by decide) .nil)
      (.cons (.skip (by decide) (.block (by decide) (by decide) (by decide) .nil)) .nil)
  have hrange : Rule.InRange rs := by
    intro n
    by_cases ha : ['a'] = n <;> by_cases hb : ['b'] = n <;>
      simp [Rule.weight, Rule.entries, Rule.entry, rs, ha, hb, maxWeight]
  have hrs : RuleSet texts ['a'] rs :=
    ⟨⟨_, hblocks, .cons ⟨rfl, .inr ⟨by decide, rfl⟩, .inr ⟨by decide, rfl⟩⟩
      (.cons ⟨rfl, .inl ⟨by decide, rfl⟩, .inr ⟨by decide, rfl⟩⟩ .nil)⟩, by decide, hrange⟩
  have hiff := loadRules_isOk_iff hold ['a']
  obtain ⟨g, hg⟩ := hiff.1.2 ⟨rs, hrs⟩
  exact ⟨g, hg, hiff.2 g rs hg hrs⟩

end PairGrammar
