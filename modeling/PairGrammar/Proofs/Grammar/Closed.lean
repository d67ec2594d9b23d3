import PairGrammar.Grammar
import PairGrammar.Pair

/-!
# Closed grammars

A grammar is closed if every name that one of its variables refers to is the name of a variable.
Then `IsClosed.isSome_of_choose` finds a variable for each reference of a production that has been
drawn, so an evaluation that starts at a variable never comes upon an unknown name.
-/

namespace PairGrammar

/-- The names that variables refer to are the names of variables. -/
def Grammar.IsClosed (g : Grammar) : Prop :=
  ∀ n v, g.find? n = some v → ∀ m ∈ v.mentions, (g.find? m).isSome

theorem Variable.mem_mentions_of_choose {ρ : Type} [Dice ρ] {v : Variable} {r : ρ} {n : Name}
    (h : n ∈ (v.choose r).1.references) : n ∈ v.mentions :=
  List.mem_flatMap.2 ⟨_, v.choose_mem r, h⟩

namespace Grammar

theorem mem_of_find? {g : Grammar} {n : Name} {v : Variable} (h : g.find? n = some v) :
    v ∈ g.vocabulary ∧ v.name = n :=
  ⟨List.mem_of_find?_eq_some h, by simpa using List.find?_some h⟩

theorem isSome_find?_of_mem_names {g : Grammar} {n : Name} (hn : n ∈ g.names) :
    (g.find? n).isSome := by
  obtain ⟨v, hv, hname⟩ := List.mem_map.1 hn
  exact List.find?_isSome.2 ⟨v, hv, by simpa using hname⟩

/-- It is enough to look at the vocabulary. -/
theorem isClosed_of_vocabulary {g : Grammar}
    (h : ∀ v ∈ g.vocabulary, ∀ m ∈ v.mentions, (g.find? m).isSome) : g.IsClosed :=
  fun _ v hv => h v (List.mem_of_find?_eq_some hv)

theorem IsClosed.isSome_of_choose {ρ : Type} [Dice ρ] {g : Grammar} (hg : g.IsClosed) {n m : Name}
    {v : Variable} (hv : g.find? n = some v) {r : ρ} (hm : m ∈ (v.choose r).1.references) :
    (g.find? m).isSome :=
  hg n v hv m (Variable.mem_mentions_of_choose hm)

/-- A text that may go on with itself: `x` twice as often as `x` and what follows. -/
def repetition : Grammar where
  vocabulary := [⟨Name.output,
    [(⟨[.literal ['x']], [.literal ['y']]⟩, 2),
      (⟨[.literal ['x', ' '], .reference Name.output],
        [.reference Name.output, .literal ['z']]⟩, 1)], List.cons_ne_nil _ _⟩]
  root := Name.output
  root_mem := ⟨_, List.mem_cons_self, rfl⟩

theorem isClosed_repetition : repetition.IsClosed := isClosed_of_vocabulary (by decide)

end Grammar

end PairGrammar
