import Mathlib.Algebra.GroupWithZero.Nat
import Mathlib.Data.List.Perm.Basic
import PairGrammar.Proofs.Grammar.Closed
import PairGrammar.Proofs.Loader.Loading

/-!
# Sources in another order

The order in which sources are read decides in which order a grammar holds its variables and their
productions, and nothing else. Names are known before any production is read, whichever source
introduces them; and weights have to stay in range for each name as a whole, so it does not matter
at which of them a sum would leave it.

* `RuleSet.exists_perm`: the rules of sources in another order are the rules in another order.
* `Grammar.Holds.reorders`: grammars that hold the same rules in another order.
* `loadRules_perm`: sources can be loaded in every order or in none, and the grammars agree.
-/

namespace PairGrammar

/-! ### Sums of weights -/

namespace Weights

theorem total_eq_sum (ws : List Nat) : total ws = ws.sum := rfl

theorem total_perm {vs ws : List Nat} (h : vs.Perm ws) : total vs = total ws := by
  rw [total_eq_sum, total_eq_sum]
  exact h.sum_nat

theorem effective_perm {vs ws : List Nat} (h : vs.Perm ws) :
    (effective vs).Perm (effective ws) := by
  have hall : vs.all (· == 0) = ws.all (· == 0) := h.all_eq
  unfold effective
  rw [hall]
  split
  · exact h.map _
  · exact h

end Weights

/-! ### Rules in another order -/

namespace Rule

variable {rs ss : List Rule}

theorem names_perm (h : rs.Perm ss) : (names rs).Perm (names ss) := h.map _

theorem entries_perm (h : rs.Perm ss) (n : Name) : (entries rs n).Perm (entries ss n) :=
  (h.filter _).map _

theorem weight_perm (h : rs.Perm ss) (n : Name) : weight rs n = weight ss n :=
  Weights.total_perm ((entries_perm h n).map _)

theorem InRange.perm (hr : InRange rs) (h : rs.Perm ss) : InRange ss := by
  intro n
  rw [← weight_perm h n]
  exact hr n

end Rule

/-- The sources of a rule set, taken in another order, are a rule set of the same rules. -/
theorem RuleSet.exists_perm {texts texts' : List (List Text)} {root : Name} {rs : List Rule}
    (h : RuleSet texts root rs) (hp : texts'.Perm texts) :
    ∃ rs', rs'.Perm rs ∧ RuleSet texts' root rs' := by
  obtain ⟨bss, hbss, hden⟩ := h.blocks
  -- the blocks follow the texts, and the rules follow the blocks
  obtain ⟨bss', hbss', hblocks⟩ := List.perm_comp_forall₂ hp hbss
  obtain ⟨rs', hden', hrules⟩ := List.perm_comp_forall₂ hblocks.flatten hden
  have hmem : ∀ n, n ∈ Rule.names rs ↔ n ∈ Rule.names rs' :=
    fun n => (Rule.names_perm hrules).symm.mem_iff
  have hdeclared : (fun n => decide (n ∈ Rule.names rs)) = fun n => decide (n ∈ Rule.names rs') := by
    funext n
    exact decide_eq_decide.2 (hmem n)
  rw [hdeclared] at hden'
  exact ⟨rs', hrules, ⟨⟨bss', hbss', hden'⟩, (hmem root).1 h.root_mem,
    h.inRange.perm hrules.symm⟩⟩

/-! ### Grammars in another order -/

namespace Grammar

/-- The grammars have one root and the same names, and for each name the same productions with the
same weights, in any order. -/
structure Reorders (g g' : Grammar) : Prop where
  root : g'.root = g.root
  names : g'.names.Perm g.names
  entries : ∀ n v v', g.find? n = some v → g'.find? n = some v' → v'.entries.Perm v.entries
  total : ∀ n v v', g.find? n = some v → g'.find? n = some v' →
    v'.sampler.total = v.sampler.total

/-- The entries of a variable are those of its name. -/
theorem Holds.entries_of_find? {g : Grammar} {root : Name} {rs : List Rule} (h : g.Holds root rs)
    {n : Name} {v : Variable} (hv : g.find? n = some v) : v.entries = Rule.entries rs n := by
  obtain ⟨hmem, rfl⟩ := mem_of_find? hv
  exact h.entries v hmem

theorem Holds.reorders {g g' : Grammar} {root : Name} {rs rs' : List Rule} (h : g.Holds root rs)
    (h' : g'.Holds root rs') (hp : rs'.Perm rs) : g.Reorders g' := by
  have hentries : ∀ n v v', g.find? n = some v → g'.find? n = some v' →
      v'.entries.Perm v.entries := by
    intro n v v' hv hv'
    rw [h.entries_of_find? hv, h'.entries_of_find? hv']
    exact Rule.entries_perm hp n
  refine ⟨h'.root.trans h.root.symm, ?_, hentries, ?_⟩
  · rw [h.names, h'.names, List.perm_ext_iff_of_nodup (nodup_firsts _) (nodup_firsts _)]
    intro n
    rw [mem_firsts, mem_firsts]
    exact (Rule.names_perm hp).mem_iff
  · intro n v v' hv hv'
    have hweights : v'.weights.Perm v.weights := (hentries n v v' hv hv').map _
    exact Weights.total_perm (Weights.effective_perm hweights)

end Grammar

/-! ### Loading in another order -/

/-- What can be loaded can be loaded in any other order, with a grammar that differs in its order
only. -/
theorem exists_loadRules_of_perm {ss ss' : List Source} (h : ss'.Perm ss)
    (hs : ∀ s ∈ ss, ∃ lines, s.Holds lines) {root : Name} {g : Grammar}
    (hg : loadRules ss root = .ok g) : ∃ g', loadRules ss' root = .ok g' ∧ g.Reorders g' := by
  obtain ⟨texts, htexts⟩ := exists_forall₂ hs
  obtain ⟨texts', htexts', hperm⟩ := List.perm_comp_forall₂ h htexts
  obtain ⟨rs, hrs, hholds⟩ := ruleSet_of_loadRules htexts hg
  obtain ⟨rs', hrules, hrs'⟩ := hrs.exists_perm hperm
  obtain ⟨g', hg', hholds'⟩ := loadRules_of_ruleSet htexts' hrs'
  exact ⟨g', hg', hholds.reorders hholds' hrules⟩

/-- Sources that do not change can be loaded in every order or in none; and two grammars that are
loaded from them differ in the order of their variables and productions only. -/
theorem loadRules_perm {ss ss' : List Source} (h : ss'.Perm ss)
    (hs : ∀ s ∈ ss, ∃ lines, s.Holds lines) (root : Name) :
    ((∃ g', loadRules ss' root = .ok g') ↔ ∃ g, loadRules ss root = .ok g) ∧
      ∀ g g', loadRules ss root = .ok g → loadRules ss' root = .ok g' → g.Reorders g' := by
  have hs' : ∀ s ∈ ss', ∃ lines, s.Holds lines := fun s hmem => hs s (h.mem_iff.1 hmem)
  refine ⟨⟨?_, ?_⟩, ?_⟩
  · rintro ⟨g', hg'⟩
    obtain ⟨g, hg, -⟩ := exists_loadRules_of_perm h.symm hs' hg'
    exact ⟨g, hg⟩
  · rintro ⟨g, hg⟩
    obtain ⟨g', hg', -⟩ := exists_loadRules_of_perm h hs hg
    exact ⟨g', hg'⟩
  · intro g g' hg hg'
    obtain ⟨g'', hg'', hreorders⟩ := exists_loadRules_of_perm h hs hg
    rw [hg'] at hg''
    cases hg''
    exact hreorders

/-- Both sources have a block of `a`, and each one refers to a name of the other. -/
theorem loadRules_perm_swap :
    let one : Source := .ofText "#a\n_b x\ny\n#c\nz\nz".toList "one"
    let two : Source := .ofText "#b weight 0\n1\n_c\n#a weight 5\n##empty\n_b".toList "two"
    ∃ g g', loadRules [one, two] ['a'] = .ok g ∧ loadRules [two, one] ['a'] = .ok g' ∧
      g.names = [['a'], ['c'], ['b']] ∧ g'.names = [['b'], ['a'], ['c']] ∧ g.Reorders g' := by
  intro one two
  have hs : ∀ s ∈ [one, two], ∃ lines, s.Holds lines := by
    intro s hmem
    rcases List.mem_pair.1 hmem with rfl | rfl
    · exact ⟨_, rfl, by simp [one, Source.ofText]⟩
    · exact ⟨_, rfl, by simp [two, Source.ofText]⟩
  have hload : (loadRules [one, two] ['a']).map Grammar.names = .ok [['a'], ['c'], ['b']] := by
    decide +kernel
  have hload' : (loadRules [two, one] ['a']).map Grammar.names = .ok [['b'], ['a'], ['c']] := by
    decide +kernel
  obtain ⟨g, hg, hnames⟩ := Piece.map_eq_ok hload
  obtain ⟨g', hg', hnames'⟩ := Piece.map_eq_ok hload'
  have hperm := loadRules_perm (List.Perm.swap one two []) hs ['a']
  exact ⟨g, g', hg, hg', hnames.symm, hnames'.symm, hperm.2 g g' hg hg'⟩

end PairGrammar
