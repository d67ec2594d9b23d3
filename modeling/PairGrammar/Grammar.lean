import PairGrammar.Variable

/-!
# Grammars

A grammar has a vocabulary, which is a list of variables that are looked up by name, and a root, the
name of the variable at which generation starts. No two variables of a grammar that is built here
have one name: a later variable takes the place of an earlier one.
-/

namespace PairGrammar

structure Grammar where
  vocabulary : List Variable
  root : Name
  root_mem : ∃ v ∈ vocabulary, v.name = root

namespace Grammar

def find? (g : Grammar) (n : Name) : Option Variable := g.vocabulary.find? (·.name = n)

def names (g : Grammar) : List Name := g.vocabulary.map (·.name)

def contains (g : Grammar) (n : Name) : Bool := g.names.contains n

theorem isSome_find?_root (g : Grammar) : (g.find? g.root).isSome := by
  obtain ⟨v, hv, h⟩ := g.root_mem
  exact List.find?_isSome.2 ⟨v, hv, by simpa using h⟩

def rootVariable (g : Grammar) : Variable := (g.find? g.root).get g.isSome_find?_root

def productionCount (g : Grammar) : Nat := (g.vocabulary.flatMap (·.entries)).length

/-- The names of the variables that refer to no variable. -/
def leaves (g : Grammar) : List Name := (g.vocabulary.filter (·.isLeaf)).map (·.name)

/-- The number of variables, productions and leaves, for the author of the rules. -/
def describe (g : Grammar) : String :=
  s!"{g.vocabulary.length} variable(s), {g.productionCount} hash expression(s), " ++
    s!"{g.leaves.length} leaf variable(s)"

/-! ### Building -/

/-- A variable takes the place of the one of its name, or comes last. -/
def put (v : Variable) : List Variable → List Variable
  | [] => [v]
  | w :: ws => if w.name = v.name then v :: ws else w :: put v ws

def ofVariables? (vs : List Variable) (root : Name) : Except Failure Grammar :=
  if h : ∃ v ∈ vs.foldl (fun ws v => put v ws) [], v.name = root then
    .ok ⟨vs.foldl (fun ws v => put v ws) [], root, h⟩
  else .error (.rootMissing root)

/-- Seals drafts one after the other up to the first that is empty. The drafts that result are
sealed up to there. -/
def finishAll : List Draft → Except Failure (List Variable) × List Draft
  | [] => (.ok [], [])
  | d :: ds => match d.finish with
    | .error e => (.error e, d :: ds)
    | .ok (v, d') => match finishAll ds with
      | (r, ds') => (r.map (v :: ·), d' :: ds')

/-- The grammar of drafts, and the drafts as they are afterwards. -/
def ofDrafts (ds : List Draft) (root : Name) : Except Failure Grammar × List Draft :=
  match finishAll ds with
  | (r, ds') => (r.bind (ofVariables? · root), ds')

end Grammar

end PairGrammar
