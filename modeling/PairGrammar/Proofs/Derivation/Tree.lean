import PairGrammar.Proofs.Evaluation.Choices

/-!
# Derivation trees

A derivation tree of a name chooses a production of the variable of that name, and has a derivation
tree for each name that the production refers to, in the order of first occurrence. The tree has
two texts, rendered from the texts of its parts, and a height, which says how deep variables lie
inside each other below the first one. Its choices are listed node by node, a node in front of its
parts.

* `Derivation.render_isOk`: a derivation tree always has its two texts.
* `Derivation.eq_of_choices_eq`: a derivation tree is known from the list of its choices.
-/

namespace PairGrammar

mutual

/-- The derivation trees of a name. -/
inductive Derivation (g : Grammar) : Name → Type
  | node {n : Name} {v : Variable} (known : g.find? n = some v) (i : Fin v.entries.length)
      (parts : Derivations g (v.entries.get i).1.references) : Derivation g n

/-- One derivation tree for each of the names. -/
inductive Derivations (g : Grammar) : List Name → Type
  | nil : Derivations g []
  | cons {n : Name} {ns : List Name} (first : Derivation g n) (rest : Derivations g ns) :
      Derivations g (n :: ns)

end

variable {g : Grammar}

/-! ### Height, choices and texts -/

mutual

/-- How deep variables lie inside each other. -/
def Derivation.height {n : Name} : Derivation g n → Nat
  | .node _ _ parts => parts.height

/-- The same of parts, which lie one level deeper. -/
def Derivations.height {ns : List Name} : Derivations g ns → Nat
  | .nil => 0
  | .cons first rest => max (first.height + 1) rest.height

end

mutual

/-- The choices of the nodes, each in front of those of its parts. -/
def Derivation.choices {n : Name} : Derivation g n → List Choice
  | .node (v := v) _ i parts => ⟨v, i⟩ :: parts.choices

def Derivations.choices {ns : List Name} : Derivations g ns → List Choice
  | .nil => []
  | .cons first rest => first.choices ++ rest.choices

end

mutual

/-- The two texts. -/
def Derivation.render {n : Name} : Derivation g n → Except Name Pair
  | .node (v := v) _ i parts => match parts.render with
    | .error m => .error m
    | .ok values => (v.entries.get i).1.render fun m => values.lookup m

/-- The names of the parts with their texts, the last part first. -/
def Derivations.render {ns : List Name} : Derivations g ns → Except Name (List (Name × Pair))
  | .nil => .ok []
  | .cons (n := n) first rest => match first.render, rest.render with
    | .error m, _ => .error m
    | .ok _, .error m => .error m
    | .ok value, .ok values => .ok (values ++ [(n, value)])

end

theorem Derivation.render_node {n : Name} {v : Variable} (known : g.find? n = some v)
    (i : Fin v.entries.length) {parts : Derivations g (v.entries.get i).1.references}
    {values : List (Name × Pair)} (h : parts.render = .ok values) :
    (node known i parts).render = (v.entries.get i).1.render fun m => values.lookup m := by
  simp only [Derivation.render, h]

mutual

theorem Derivation.render_isOk {n : Name} (t : Derivation g n) :
    ∃ value, t.render = .ok value := by
  match t with
  | .node known i parts =>
    obtain ⟨values, hv, hall⟩ := parts.render_isOk
    rw [Derivation.render_node known i hv]
    exact Production.render_isOk hall

/-- Parts have their texts, so that each of the names has a pair. -/
theorem Derivations.render_isOk {ns : List Name} (ts : Derivations g ns) :
    ∃ values, ts.render = .ok values ∧ ∀ m ∈ ns, (values.lookup m).isSome := by
  match ts with
  | .nil => exact ⟨[], rfl, by simp⟩
  | .cons (n := n) first rest =>
    obtain ⟨value, hf⟩ := first.render_isOk
    obtain ⟨values, hr, hall⟩ := rest.render_isOk
    refine ⟨values ++ [(n, value)], by simp only [Derivations.render, hf, hr], ?_⟩
    intro m hm
    rw [List.lookup_append, Option.isSome_or, Bool.or_eq_true]
    rcases List.mem_cons.1 hm with rfl | hm
    · exact .inr (by simp)
    · exact .inl (hall m hm)

end

/-! ### Trees and lists of choices -/

mutual

/-- No list of choices of a tree goes on as the list of another tree of the same name. -/
theorem Derivation.choices_append_inj {n : Name} (s t : Derivation g n) {cs ds : List Choice}
    (h : s.choices ++ cs = t.choices ++ ds) : s = t ∧ cs = ds := by
  match s, t with
  | .node (v := v) hv i ps, .node (v := w) hw j qs =>
    obtain rfl : v = w := Option.some.inj (hv.symm.trans hw)
    obtain ⟨hc, hparts⟩ := List.cons.inj h
    obtain rfl : i = j := by simpa using hc
    obtain ⟨rfl, rfl⟩ := ps.choices_append_inj qs hparts
    exact ⟨rfl, rfl⟩

theorem Derivations.choices_append_inj {ns : List Name} (ss ts : Derivations g ns)
    {cs ds : List Choice} (h : ss.choices ++ cs = ts.choices ++ ds) : ss = ts ∧ cs = ds := by
  match ss, ts with
  | .nil, .nil => exact ⟨rfl, h⟩
  | .cons s ss, .cons t ts =>
    simp only [Derivations.choices, List.append_assoc] at h
    obtain ⟨rfl, hrest⟩ := s.choices_append_inj t h
    obtain ⟨rfl, rfl⟩ := ss.choices_append_inj ts hrest
    exact ⟨rfl, rfl⟩

end

theorem Derivation.eq_of_choices_eq {n : Name} {s t : Derivation g n}
    (h : s.choices = t.choices) : s = t :=
  (s.choices_append_inj t (congrArg (· ++ []) h)).1

end PairGrammar
