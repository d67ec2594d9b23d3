import PairGrammar.LoadError

/-!
# Weights

A weight is a natural number. Where every weight is zero, all of them count as one; the weights
that result are the effective ones, and their running sums decide what a number drawn below their
total stands for: the first position whose running sum exceeds it.
-/

namespace PairGrammar

/-- Weights and their sums fit into a signed word of sixty-four bits. -/
def maxWeight : Nat := 0x7FFFFFFFFFFFFFFF

namespace Weights

def total (ws : List Nat) : Nat := ws.foldr (· + ·) 0

def effective (ws : List Nat) : List Nat :=
  if ws.all (· == 0) then ws.map fun _ => 1 else ws

/-- The running sums, started at `n`. -/
def runningSums (n : Nat) : List Nat → List Nat
  | [] => []
  | w :: ws => (n + w) :: runningSums (n + w) ws

theorem length_effective (ws : List Nat) : (effective ws).length = ws.length := by
  unfold effective
  split <;> simp

@[simp] theorem total_nil : total [] = 0 := rfl

@[simp] theorem total_cons (w : Nat) (ws : List Nat) : total (w :: ws) = w + total ws := rfl

theorem total_append (vs ws : List Nat) : total (vs ++ ws) = total vs + total ws := by
  induction vs with
  | nil => simp
  | cons v vs ih => rw [List.cons_append, total_cons, total_cons, ih, Nat.add_assoc]

theorem le_total {w : Nat} {ws : List Nat} (h : w ∈ ws) : w ≤ total ws := by
  induction ws with
  | nil => cases h
  | cons v ws ih =>
    rw [total_cons]
    rcases List.mem_cons.1 h with rfl | h
    · omega
    · have := ih h
      omega

theorem total_effective_pos {ws : List Nat} (h : ws ≠ []) : 0 < total (effective ws) := by
  unfold effective
  split
  · cases ws with
    | nil => exact absurd rfl h
    | cons w ws =>
      rw [List.map_cons, total_cons]
      omega
  · next hz =>
    simp only [List.all_eq_true, beq_iff_eq, Classical.not_forall] at hz
    obtain ⟨w, hw, hn⟩ := hz
    have := le_total hw
    omega

@[simp] theorem length_runningSums (n : Nat) (ws : List Nat) :
    (runningSums n ws).length = ws.length := by
  induction ws generalizing n with
  | nil => rfl
  | cons w ws ih => simp [runningSums, ih]

end Weights

end PairGrammar
