import PairGrammar.Registry

/-!
# Rules, and registries that hold them

A block of a rule file stands for a rule: the header, and the production made of the two content
lines. `Block.Denotes` says which rule that is, as long as it is known which names are declared.
`Registry.ofRules` is the registry that has the given names and holds the given rules, each at the
draft of its name and in the order in which they were read.

* `enter_ofRules`: entering a name keeps each name at the place of its first occurrence.
* `add_ofRules`: a rule is added at the end, unless the weights of its name leave their range.
-/

namespace PairGrammar

structure Rule where
  header : Header
  production : Production
  deriving DecidableEq

namespace Rule

def entry (r : Rule) : Production × Nat := (r.production, r.header.weight)

/-- The names that rules introduce, in their order. -/
def names (rs : List Rule) : List Name := rs.map (·.header.name)

/-- The productions of a name and their weights, in the order of the rules. -/
def entries (rs : List Rule) (n : Name) : List (Production × Nat) :=
  (rs.filter (·.header.name = n)).map entry

/-- The sum of the weights of a name. -/
def weight (rs : List Rule) (n : Name) : Nat := Weights.total ((entries rs n).map Prod.snd)

/-- The weights of every name are in range. -/
def InRange (rs : List Rule) : Prop := ∀ n, weight rs n ≤ maxWeight

end Rule

/-- The pieces that a content line stands for: none if it is the empty line, otherwise those that
are read from it without the blanks in front. -/
def Content (declared : Name → Bool) (line : Text) (ps : List Piece) : Prop :=
  line = Header.emptyLine ∧ ps = [] ∨
    line ≠ Header.emptyLine ∧ Piece.readLine declared line.trimLeft = .ok ps

/-- The rule that a block stands for. -/
structure Block.Denotes (declared : Name → Bool) (b : Block) (r : Rule) : Prop where
  header : Header.read b.header = .ok r.header
  natural : Content declared b.natural r.production.natural
  code : Content declared b.code r.production.code

/-! ### First occurrences -/

theorem firsts_concat (ns : List Name) (n : Name) :
    firsts (ns ++ [n]) = if n ∈ ns then firsts ns else firsts ns ++ [n] := by
  induction ns with
  | nil => rfl
  | cons m ns ih =>
    rw [List.cons_append, firsts, firsts, ih]
    by_cases hm : n = m
    · subst hm
      by_cases hn : n ∈ ns <;> simp [hn]
    · by_cases hn : n ∈ ns <;> simp [hn, hm]

/-! ### Entries of a list of rules -/

namespace Rule

@[simp] theorem entries_nil (n : Name) : entries [] n = [] := rfl

theorem entries_append (rs ss : List Rule) (n : Name) :
    entries (rs ++ ss) n = entries rs n ++ entries ss n := by
  simp [entries]

theorem entries_singleton (r : Rule) (n : Name) :
    entries [r] n = if r.header.name = n then [r.entry] else [] := by
  by_cases h : r.header.name = n <;> simp [entries, h]

theorem entries_ne_nil_iff {rs : List Rule} {n : Name} : entries rs n ≠ [] ↔ n ∈ names rs := by
  simp [entries, names, List.filter_eq_nil_iff]

theorem weight_append (rs ss : List Rule) (n : Name) :
    weight (rs ++ ss) n = weight rs n + weight ss n := by
  rw [weight, entries_append, List.map_append, Weights.total_append]
  rfl

theorem weight_concat (rs : List Rule) (r : Rule) (n : Name) :
    weight (rs ++ [r]) n = weight rs n + if r.header.name = n then r.header.weight else 0 := by
  rw [weight_append]
  by_cases h : r.header.name = n <;> simp [weight, entries_singleton, h, entry]

theorem InRange.of_append {rs ss : List Rule} (h : InRange (rs ++ ss)) : InRange rs := by
  intro n
  have := h n
  rw [weight_append] at this
  omega

theorem InRange.concat_iff {rs : List Rule} (h : InRange rs) {r : Rule} :
    InRange (rs ++ [r]) ↔ weight (rs ++ [r]) r.header.name ≤ maxWeight := by
  constructor
  · intro hr
    exact hr _
  · intro hr n
    by_cases hn : r.header.name = n
    · exact hn ▸ hr
    · rw [weight_concat, if_neg hn]
      exact h n

end Rule

/-! ### Registries -/

namespace Registry

/-- The registry with the given names that holds the given rules. -/
def ofRules (ns : List Name) (rs : List Rule) : Registry :=
  ns.map fun n => { name := n, entries := Rule.entries rs n }

@[simp] theorem names_ofRules (ns : List Name) (rs : List Rule) : (ofRules ns rs).names = ns := by
  simp [ofRules, names, Function.comp_def]

theorem declares_ofRules (ns : List Name) (rs : List Rule) :
    (ofRules ns rs).declares = fun n => decide (n ∈ ns) := by
  funext n
  rw [declares, names_ofRules]
  exact List.elem_eq_mem n ns

theorem enter_ofRules (ns : List Name) (n : Name) :
    (ofRules (firsts ns) []).enter n = ofRules (firsts (ns ++ [n])) [] := by
  rw [enter, declares_ofRules, firsts_concat]
  by_cases h : n ∈ ns <;> simp [h, ofRules]

theorem find?_ofRules {ns : List Name} {n : Name} (h : n ∈ ns) (rs : List Rule) :
    (ofRules ns rs).find? n = some { name := n, entries := Rule.entries rs n } := by
  induction ns with
  | nil => cases h
  | cons m ns ih =>
    by_cases hm : m = n
    · simp [find?, ofRules, hm]
    · have hn : n ∈ ns := by simpa [Ne.symm hm] using h
      simpa [find?, ofRules, hm] using ih hn

theorem find?_ofRules_eq_none {ns : List Name} {n : Name} (h : n ∉ ns) (rs : List Rule) :
    (ofRules ns rs).find? n = none := by
  rw [find?, ofRules, List.find?_eq_none]
  intro d hd
  obtain ⟨m, hm, rfl⟩ := List.mem_map.1 hd
  have : m ≠ n := fun e => h (e ▸ hm)
  simpa using this

theorem update_ofRules {ns : List Name} (rs : List Rule) (r : Rule) :
    (ofRules ns rs).update
        { name := r.header.name, entries := Rule.entries (rs ++ [r]) r.header.name } =
      ofRules ns (rs ++ [r]) := by
  simp only [update, ofRules, List.map_map]
  refine List.map_congr_left fun n _ => ?_
  by_cases h : n = r.header.name
  · simp [h]
  · simp [h, Rule.entries_append, Rule.entries_singleton, Ne.symm h]

/-- A rule goes to the end, unless the weights of its name then leave their range. -/
theorem add_ofRules {ns : List Name} {r : Rule} (h : r.header.name ∈ ns) (rs : List Rule) :
    (ofRules ns rs).add r.header r.production =
      if maxWeight < Rule.weight (rs ++ [r]) r.header.name then .error (.ofFault .weightOverflow)
      else .ok (ofRules ns (rs ++ [r])) := by
  have ho : Draft.overflows { name := r.header.name, entries := Rule.entries rs r.header.name }
      r.header.weight = decide (maxWeight < Rule.weight (rs ++ [r]) r.header.name) := by
    rw [Rule.weight_concat, if_pos rfl]
    refine decide_eq_decide.2 ?_
    show (maxWeight : Int) < (Rule.weight rs r.header.name : Nat) + (r.header.weight : Int) ↔ _
    omega
  rw [add, find?_ofRules h]
  dsimp only
  rw [ho]
  by_cases hw : maxWeight < Rule.weight (rs ++ [r]) r.header.name
  · simp [hw]
  · have hi : Draft.insert { name := r.header.name, entries := Rule.entries rs r.header.name }
        r.production r.header.weight = .ok (some
          { name := r.header.name, entries := Rule.entries (rs ++ [r]) r.header.name }) := by
      rw [Draft.insert, if_neg (by omega), ho]
      simp [hw, Rule.entries_append, Rule.entries_singleton, Rule.entry]
    rw [hi]
    simp [hw, update_ofRules]

end Registry

end PairGrammar
