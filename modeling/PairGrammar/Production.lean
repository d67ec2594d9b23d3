import PairGrammar.Piece

/-!
# Productions

A production is what a variable can become: the pieces of a natural language line and those of a
code line, each possibly empty. It refers to the variables of both lines, each once, in the order
in which they first occur.
-/

namespace PairGrammar

/-- Each entry once, at the place of its first occurrence. -/
def firsts : List Name → List Name
  | [] => []
  | n :: ns => n :: (firsts ns).filter (· ≠ n)

@[simp] theorem mem_firsts {n : Name} {ns : List Name} : n ∈ firsts ns ↔ n ∈ ns := by
  induction ns with
  | nil => simp [firsts]
  | cons m ns ih => by_cases h : n = m <;> simp [firsts, ih, h]

theorem nodup_firsts (ns : List Name) : (firsts ns).Nodup := by
  induction ns with
  | nil => simp [firsts]
  | cons n ns ih => exact List.nodup_cons.2 ⟨by simp, List.Pairwise.filter _ ih⟩

structure Production where
  natural : List Piece := []
  code : List Piece := []
  deriving DecidableEq, Repr

namespace Production

def references (p : Production) : List Name :=
  firsts ((p.natural ++ p.code).filterMap Piece.name?)

/-- Whether the production refers to no variable. -/
def isLeaf (p : Production) : Bool := p.references.isEmpty

def text (p : Production) : Text :=
  Piece.textAll p.natural ++ [' ', '/', ' '] ++ Piece.textAll p.code

end Production

end PairGrammar
