/-!
# Sources of random numbers

All chance comes from dice: asked for a number below a total, they give an integer and the dice as
they are afterwards. Nothing is promised about the integer, so that a statement about all dice is a
statement about every sequence of draws. Scripted dice give listed numbers over and over, recorded
dice remember what they were asked and what they gave.
-/

namespace PairGrammar

class Dice (ρ : Type) where
  roll : (total : Nat) → ρ → Int × ρ

/-- A roll for a total of any sign. No number lies between zero and a total that is not positive. -/
def Dice.roll? {ρ : Type} [Dice ρ] (total : Int) (r : ρ) : Option (Int × ρ) :=
  if total ≤ 0 then none else some (Dice.roll total.toNat r)

/-- Dice that go through a list of numbers again and again; an empty list is a list of one zero.
Reduced dice give the remainder of the number modulo the total. -/
structure Script where
  numbers : List Int
  ahead : List Int
  reduced : Bool

namespace Script

def ofList (numbers : List Int) (reduced : Bool) : Script :=
  ⟨numbers, numbers, reduced⟩

def next (s : Script) : Int × Script :=
  match s.ahead, s.numbers with
  | x :: r, _ => (x, { s with ahead := r })
  | [], x :: r => (x, { s with ahead := r })
  | [], [] => (0, s)

instance : Dice Script where
  roll total s := match s.next with
    | (x, s') => (if s.reduced then x.emod total else x, s')

end Script

/-- Dice together with all that they gave and were asked for, the latest first. -/
structure Recorded (ρ : Type) where
  dice : ρ
  rolls : List (Int × Nat) := []

instance {ρ : Type} [Dice ρ] : Dice (Recorded ρ) where
  roll total r := match Dice.roll total r.dice with
    | (x, d) => (x, ⟨d, (x, total) :: r.rolls⟩)

instance {ρ σ : Type} [Dice ρ] [Dice σ] : Dice (ρ ⊕ σ) where
  roll total
    | .inl r => match Dice.roll total r with
      | (x, r') => (x, .inl r')
    | .inr s => match Dice.roll total s with
      | (x, s') => (x, .inr s')

end PairGrammar
