import PairGrammar.Sampler
import Mathlib.Data.Set.Card
import Mathlib.Order.Interval.Finset.Nat

/-!
# Which numbers stand for a position

The numbers below the total of a sampler fall into intervals, one for each position and as long as
its weight: position `i` owns the numbers from the sum of the weights before it up to the sum that
includes its own. `Weights.upTo` is the sum of the weights before a position.

* `countP_runningSums`: the running sums that do not exceed a number are those before its interval.
* `Sampler.index_eq_iff`: a number below the total stands for the position whose interval it is in,
  so the last position is never taken for want of a running sum.
* `Sampler.encard_index_eq`: as many numbers stand for a position as its weight says.
-/

namespace PairGrammar

namespace Weights

/-- The sum of the weights before position `i`. -/
def upTo (ws : List Nat) (i : Nat) : Nat := total (ws.take i)

@[simp] theorem upTo_zero (ws : List Nat) : upTo ws 0 = 0 := rfl

@[simp] theorem upTo_cons_succ (w : Nat) (ws : List Nat) (i : Nat) :
    upTo (w :: ws) (i + 1) = w + upTo ws i := rfl

theorem upTo_succ {ws : List Nat} {i : Nat} (hi : i < ws.length) :
    upTo ws (i + 1) = upTo ws i + ws[i] := by
  induction ws generalizing i with
  | nil => exact absurd hi (Nat.not_lt_zero i)
  | cons w ws ih =>
    cases i with
    | zero => simp
    | succ i =>
      rw [upTo_cons_succ, upTo_cons_succ, ih (Nat.lt_of_succ_lt_succ hi), Nat.add_assoc]
      rfl

theorem upTo_mono (ws : List Nat) {i j : Nat} (h : i ≤ j) : upTo ws i ≤ upTo ws j := by
  induction ws generalizing i j with
  | nil => simp [upTo]
  | cons w ws ih =>
    cases i with
    | zero => exact Nat.zero_le _
    | succ i =>
      obtain ⟨j, rfl⟩ : ∃ k, j = k + 1 := ⟨j - 1, by omega⟩
      rw [upTo_cons_succ, upTo_cons_succ]
      exact Nat.add_le_add_left (ih (Nat.le_of_succ_le_succ h)) w

theorem upTo_le_total (ws : List Nat) (i : Nat) : upTo ws i ≤ total ws := by
  have h := upTo_mono ws (show i ≤ max i ws.length from Nat.le_max_left _ _)
  have hl : upTo ws (max i ws.length) = total ws := by
    rw [upTo, List.take_of_length_le (Nat.le_max_right _ _)]
  omega

theorem le_of_mem_runningSums {n c : Nat} {ws : List Nat} (h : c ∈ runningSums n ws) : n ≤ c := by
  induction ws generalizing n with
  | nil => cases h
  | cons w ws ih =>
    rcases List.mem_cons.1 h with rfl | h
    · omega
    · have := ih h
      omega

/-- The running sums that do not exceed `x` are those before the interval that `x` is in. -/
theorem countP_runningSums {n x : Nat} {ws : List Nat} (hn : n ≤ x) (hx : x < n + total ws) :
    ∃ i < ws.length, (runningSums n ws).countP (fun (c : Nat) => (c : Int) ≤ x) = i ∧
      n + upTo ws i ≤ x ∧ x < n + upTo ws (i + 1) := by
  induction ws generalizing n with
  | nil =>
    rw [total_nil] at hx
    omega
  | cons w ws ih =>
    rw [total_cons] at hx
    by_cases hw : n + w ≤ x
    · obtain ⟨i, hi, hc, hl, hu⟩ := ih hw (by omega)
      refine ⟨i + 1, Nat.succ_lt_succ hi, ?_, ?_, ?_⟩
      · have hw' : ((n + w : Nat) : Int) ≤ x := Int.ofNat_le.2 hw
        rw [runningSums, List.countP_cons_of_pos (by simpa using hw'), hc]
      · rw [upTo_cons_succ]
        omega
      · rw [upTo_cons_succ]
        omega
    · refine ⟨0, Nat.succ_pos _, ?_, by rw [upTo_zero]; omega, ?_⟩
      · -- every further running sum is at least the first one
        refine List.countP_eq_zero.2 fun c hc => ?_
        have hwc : n + w ≤ c := by
          rcases List.mem_cons.1 hc with rfl | hc
          · exact Nat.le_refl _
          · exact le_of_mem_runningSums hc
        simp only [decide_eq_true_eq]
        omega
      · rw [upTo_cons_succ, upTo_zero]
        omega

/-- A number is in one interval only. -/
theorem eq_of_mem_intervals {ws : List Nat} {i j x : Nat} (hi : upTo ws i ≤ x)
    (hi' : x < upTo ws (i + 1)) (hj : upTo ws j ≤ x) (hj' : x < upTo ws (j + 1)) : i = j := by
  rcases Nat.lt_trichotomy i j with h | h | h
  · have := upTo_mono ws (show i + 1 ≤ j from h)
    omega
  · exact h
  · have := upTo_mono ws (show j + 1 ≤ i from h)
    omega

end Weights

namespace Sampler

open Weights (upTo upTo_succ upTo_le_total)

variable (s : Sampler)

/-- A number below the total stands for the position whose interval it is in. -/
theorem index_eq_iff {x : Nat} (hx : x < s.total) (i : Nat) :
    s.index x = i ↔ upTo s.weights i ≤ x ∧ x < upTo s.weights (i + 1) := by
  obtain ⟨j, hj, hc, hl, hu⟩ := Weights.countP_runningSums (Nat.zero_le x)
    (show x < 0 + Weights.total s.weights by rw [Nat.zero_add]; exact hx)
  rw [Nat.zero_add] at hl hu
  have hindex : s.index x = j := by
    rw [index, cumulative, hc]
    omega
  constructor
  · intro h
    rw [← h, hindex]
    exact ⟨hl, hu⟩
  · rintro ⟨hl', hu'⟩
    rw [hindex]
    exact Weights.eq_of_mem_intervals hl hu hl' hu'

/-- As many of the numbers below the total stand for a position as its weight says. -/
theorem encard_index_eq {i : Nat} (hi : i < s.weights.length) :
    {x : Nat | x < s.total ∧ s.index x = i}.encard = s.weights[i] := by
  have hinterval : {x : Nat | x < s.total ∧ s.index x = i} =
      Finset.Ico (upTo s.weights i) (upTo s.weights (i + 1)) := by
    ext x
    rw [Set.mem_ofPred_eq, Finset.coe_Ico, Set.mem_Ico]
    constructor
    · rintro ⟨hx, hxi⟩
      exact (s.index_eq_iff hx i).1 hxi
    · intro h
      have hx : x < s.total := Nat.lt_of_lt_of_le h.2 (upTo_le_total _ _)
      exact ⟨hx, (s.index_eq_iff hx i).2 h⟩
  rw [hinterval, Set.encard_coe_eq_coe_finsetCard, Nat.card_Ico, upTo_succ hi,
    Nat.add_sub_cancel_left]

end Sampler

end PairGrammar
