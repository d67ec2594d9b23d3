import PairGrammar.Binary64
import PairGrammar.Random.Dice
import PairGrammar.Weights

/-!
# Samplers

A sampler holds effective weights, so their total is positive. A number `x` stands for the first
position whose running sum exceeds it, and for the last position if there is none; so numbers below
zero stand for the first position, whatever its weight. Dice are rolled only where there is a
choice.

The chance of a position is a floating-point number: the share of the total that belongs to it, as a
whole number, divided by the total and rounded.

`index_lt` says that a drawn position is one of the weights.
-/

namespace PairGrammar

structure Sampler where
  weights : List Nat
  total_pos : 0 < Weights.total weights

namespace Sampler

def ofWeights (ws : List Nat) (h : ws ≠ []) : Sampler :=
  ⟨Weights.effective ws, Weights.total_effective_pos h⟩

/-- Weights of any sign; there have to be some, and none may be negative. -/
def ofInts? (ws : List Int) : Except Failure Sampler :=
  if h : ws = [] then .error .noWeights
  else if ws.any (· < 0) then .error .negativeWeight
  else .ok (ofWeights (ws.map Int.toNat) (by simpa using h))

def cumulative (s : Sampler) : List Nat := Weights.runningSums 0 s.weights

def total (s : Sampler) : Nat := Weights.total s.weights

/-- The running sums do not decrease, so those that do not exceed `x` come first. -/
def index (s : Sampler) (x : Int) : Nat :=
  min (s.cumulative.countP fun (c : Nat) => (c : Int) ≤ x) (s.weights.length - 1)

def draw {ρ : Type} [Dice ρ] (s : Sampler) (r : ρ) : Nat × ρ :=
  if s.weights.length = 1 then (0, r)
  else match Dice.roll s.total r with
    | (x, r') => (s.index x, r')

/-- An entry of a list by its position, counted from the end where it is negative. -/
def entry? (xs : List Nat) (i : Int) : Option Nat :=
  if 0 ≤ i then xs[i.toNat]?
  else if 0 ≤ i + xs.length then xs[(i + xs.length).toNat]?
  else none

/-- What lies between a running sum and the one before it. In front of the first position, and of
those counted from the end, the running sum is zero. -/
def share? (s : Sampler) (i : Int) : Option Int :=
  match if 0 < i then entry? s.cumulative (i - 1) else some 0, entry? s.cumulative i with
  | some before, some upTo => some (upTo - before)
  | _, _ => none

/-- The share of the total that belongs to a position, divided by the total. -/
def probability (s : Sampler) (i : Int) : Option Binary64 :=
  (s.share? i).map fun n => .ofRat (mkRat n s.total)

theorem weights_ne_nil (s : Sampler) : s.weights ≠ [] := fun h => by
  have := s.total_pos
  simp [h] at this

theorem length_pos (s : Sampler) : 0 < s.weights.length :=
  List.length_pos_iff.2 s.weights_ne_nil

theorem index_lt (s : Sampler) (x : Int) : s.index x < s.weights.length := by
  have := s.length_pos
  simp only [index]
  omega

theorem draw_lt {ρ : Type} [Dice ρ] (s : Sampler) (r : ρ) : (s.draw r).1 < s.weights.length := by
  unfold draw
  split
  · exact s.length_pos
  · exact s.index_lt _

end Sampler

end PairGrammar
