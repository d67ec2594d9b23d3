import PairGrammar.Evaluation
import PairGrammar.Log

/-!
# Generators

A generator has a grammar, or the error that kept it from being loaded, a limit for the depth of
evaluations, and dice. Each request evaluates the root of the grammar from level zero with the
limit of that moment; the dice go from request to request. Without a grammar every request fails
and no dice are rolled.

Requests come in quotas, some number of them or no end of them.
-/

namespace PairGrammar

/-- The answer to a request. -/
inductive Generated
  | evaluated (outcome : Outcome)
  | notLoaded
  deriving DecidableEq, Repr

/-- The text about a limit, which is written as it was given. -/
def limitTrouble (limit : String) : String := s!"recursion level limit of {limit} reached"

def limitNote (limit : Int) (n : Name) : Note :=
  ⟨.debug, "iskierka.evaluator",
    s!"Recursion level limit {limit} reached while evaluating '{n.string}'"⟩

namespace Generated

def pair? : Generated → Option Pair
  | evaluated (.pair p) => some p
  | _ => none

/-- What a missing pair is reported with. -/
def trouble : Generated → Option String
  | evaluated (.pair _) => none
  | evaluated (.limitReached limit _) => some (limitTrouble (toString limit))
  | evaluated (.undefined n) => some n.string
  | evaluated .unbalanced => some ""
  | notLoaded => some "the rule set has not been loaded successfully"

end Generated

/-- A number of requests that are still to be made. -/
inductive Quota
  | endless
  | left (n : Nat)
  deriving DecidableEq, Repr

namespace Quota

/-- A number that is not positive asks for requests without end. -/
def ofInt (count : Int) : Quota := if count ≤ 0 then endless else left count.toNat

/-- One request less, if there is one. -/
def use? : Quota → Option Quota
  | endless => some endless
  | left 0 => none
  | left (n + 1) => some (left n)

end Quota

structure Generator (ρ : Type) where
  grammar : Option Grammar := none
  loadError : Option LoadError := none
  dice : ρ
  limit : Int := 2048

namespace Generator

variable {ρ : Type} [Dice ρ]

/-- A generator for a grammar that is there already. -/
def ofGrammar (g : Grammar) (dice : ρ) (limit : Int) : Generator ρ :=
  { grammar := some g, dice := dice, limit := limit }

/-- A generator for the result of loading. Only load errors are kept. -/
def ofLoaded (loaded : Except Failure Grammar) (dice : ρ) (limit : Int) :
    Except Failure (Generator ρ) :=
  match loaded with
  | .ok g => .ok (ofGrammar g dice limit)
  | .error (.load e) => .ok { loadError := some e, dice := dice, limit := limit }
  | .error e => .error e

def isLoaded (g : Generator ρ) : Bool := g.grammar.isSome

/-- The note about a failed load; a quiet generator leaves none. -/
def notes (g : Generator ρ) (quiet : Bool) : List Note :=
  match g.loadError with
  | none => []
  | some e => if quiet then [] else [⟨.error, "iskierka.generator", e.text⟩]

def setLimit (g : Generator ρ) (limit : Int) : Generator ρ := { g with limit := limit }

def next (g : Generator ρ) : Generated × Generator ρ :=
  match g.grammar with
  | none => (.notLoaded, g)
  | some grammar =>
    match grammar.evaluate grammar.root { limit := g.limit } g.dice with
    | e => (.evaluated e.outcome, { g with dice := e.dice })

/-- One request of a quota, if it has one left. -/
def advance (g : Generator ρ) (q : Quota) : Option (Generated × Quota × Generator ρ) :=
  q.use?.map fun q' => match g.next with
    | (r, g') => (r, q', g')

/-- The answers to the first requests of a quota, at most `k` of them. -/
def take (g : Generator ρ) : (k : Nat) → Quota → List Generated × Generator ρ
  | 0, _ => ([], g)
  | k + 1, q => match g.advance q with
    | none => ([], g)
    | some (r, q', g') => match take g' k q' with
      | (rs, g'') => (r :: rs, g'')

end Generator

end PairGrammar
