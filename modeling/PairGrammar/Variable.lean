import PairGrammar.Production
import PairGrammar.Sampler

/-!
# Variables and their drafts

A variable is a name and at least one production, each with its weight. While rules are read it is
a draft: productions are added at its end as long as the sum of the weights stays in range, until
the draft is sealed. A sealed draft takes no more productions, so sealing it again gives the same
variable.
-/

namespace PairGrammar

structure Variable where
  name : Name
  entries : List (Production × Nat)
  entries_ne_nil : entries ≠ []
  deriving DecidableEq

namespace Variable

def productions (v : Variable) : List Production := v.entries.map Prod.fst

def weights (v : Variable) : List Nat := v.entries.map Prod.snd

theorem weights_ne_nil (v : Variable) : v.weights ≠ [] := by
  simpa [weights] using v.entries_ne_nil

def sampler (v : Variable) : Sampler := .ofWeights v.weights v.weights_ne_nil

theorem length_sampler (v : Variable) : v.sampler.weights.length = v.entries.length := by
  simp [sampler, Sampler.ofWeights, Weights.length_effective, weights]

/-- A production drawn by weight. -/
def choose {ρ : Type} [Dice ρ] (v : Variable) (r : ρ) : Production × ρ :=
  ((v.entries.get ⟨(v.sampler.draw r).1, v.length_sampler ▸ v.sampler.draw_lt r⟩).1,
    (v.sampler.draw r).2)

/-- The names that some production refers to. -/
def mentions (v : Variable) : List Name := v.productions.flatMap Production.references

def isLeaf (v : Variable) : Bool := v.productions.all Production.isLeaf

/-- A variable from productions and weights, which have to be as many and not negative. -/
def ofLists? (name : Name) (ps : List Production) (ws : List Int) : Except Failure Variable :=
  if hp : ps = [] then .error (.ofFault (.emptyVariable name))
  else if hw : ps.length ≠ ws.length then .error .brokenPromise
  else if ws.any (· < 0) then .error .negativeWeight
  else .ok ⟨name, ps.zip (ws.map Int.toNat), by cases ps <;> cases ws <;> simp_all⟩

theorem choose_mem {ρ : Type} [Dice ρ] (v : Variable) (r : ρ) :
    (v.choose r).1 ∈ v.productions :=
  List.mem_map.2 ⟨_, List.get_mem _ _, rfl⟩

end Variable

/-! ### Drafts -/

structure Draft where
  name : Name
  entries : List (Production × Nat) := []
  isSealed : Bool := false
  deriving DecidableEq, Repr

namespace Draft

def weights (d : Draft) : List Nat := d.entries.map Prod.snd

def total (d : Draft) : Nat := Weights.total d.weights

/-- Whether one more weight would leave the range of weights. -/
def overflows (d : Draft) (weight : Int) : Bool := maxWeight < d.total + weight

/-- The draft with one more production at its end; nothing if it takes none. A negative weight is
not even considered. -/
def insert (d : Draft) (p : Production) (weight : Int) : Except Failure (Option Draft) :=
  if weight < 0 then .error .brokenPromise
  else if d.isSealed || d.overflows weight then .ok none
  else .ok (some { d with entries := d.entries ++ [(p, weight.toNat)] })

/-- The variable of a draft and the sealed draft. -/
def finish (d : Draft) : Except Failure (Variable × Draft) :=
  if h : d.entries = [] then .error (.ofFault (.emptyVariable d.name))
  else .ok (⟨d.name, d.entries, h⟩, { d with isSealed := true })

theorem finish_of_finish {d e : Draft} {v : Variable} (h : d.finish = .ok (v, e)) :
    e.finish = .ok (v, e) := by
  unfold finish at h
  split at h
  · cases h
  · next hd => cases h; simp [finish, hd]

end Draft

end PairGrammar
