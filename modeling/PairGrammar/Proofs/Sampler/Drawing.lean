import PairGrammar.Proofs.Sampler.Intervals

/-!
# What a sampler draws

A draw finds the position that owns the number given by the dice. The running sums before this
position do not exceed the number and all others do, so the position is found from the left, running
sum by running sum, and by halves just as well, although running sums repeat where a weight is zero.

* `Weights.bisect_eq_countP`: the search by halves, among entries that do not decrease.
* `Sampler.index_eq_bisect`: the position of any number, by this search.
* `Sampler.findIdx?_cumulative`: the position of a number below the total, from the left.
* `Sampler.share?_eq`: what lies between two running sums is the weight of a position.
* `Sampler.draw_ofWeights`: what is drawn from weights, and by how many numbers.
-/

namespace PairGrammar

namespace Weights

/-- Position `i` owns the number `x`: the weights before it add up to `x` at most, and to more than
`x` with its own. -/
def Owns (ws : List Nat) (i x : Nat) : Prop :=
  ∃ hi : i < ws.length, upTo ws i ≤ x ∧ x < upTo ws i + ws[i]

theorem owns_iff {ws : List Nat} {i x : Nat} :
    Owns ws i x ↔ i < ws.length ∧ upTo ws i ≤ x ∧ x < upTo ws (i + 1) := by
  constructor
  · rintro ⟨hi, hle, hlt⟩
    rw [← upTo_succ hi] at hlt
    exact ⟨hi, hle, hlt⟩
  · rintro ⟨hi, hle, hlt⟩
    rw [upTo_succ hi] at hlt
    exact ⟨hi, hle, hlt⟩

/-! ### Running sums -/

theorem getElem_runningSums {n i : Nat} {ws : List Nat} (hi : i < (runningSums n ws).length) :
    (runningSums n ws)[i] = n + upTo ws (i + 1) := by
  induction ws generalizing n i with
  | nil => cases hi
  | cons w ws ih =>
    cases i with
    | zero => rfl
    | succ i =>
      have hi' : i < (runningSums (n + w) ws).length := Nat.lt_of_succ_lt_succ hi
      calc (runningSums n (w :: ws))[i + 1] = (runningSums (n + w) ws)[i] := rfl
        _ = n + w + upTo ws (i + 1) := ih hi'
        _ = n + upTo (w :: ws) (i + 1 + 1) := by rw [upTo_cons_succ, Nat.add_assoc]

theorem pairwise_runningSums (n : Nat) (ws : List Nat) :
    (runningSums n ws).Pairwise (· ≤ ·) := by
  induction ws generalizing n with
  | nil => exact .nil
  | cons w ws ih => exact .cons (fun _ hc => le_of_mem_runningSums hc) (ih (n + w))

/-! ### Searching by halves -/

/-- Looks for the first entry above `x` between two positions: the middle one decides on which side
of it the search goes on. -/
def bisect (xs : List Nat) (x : Int) (lo hi : Nat) (hhi : hi ≤ xs.length) : Nat :=
  if hlo : lo < hi then
    if x < xs[(lo + hi) / 2] then bisect xs x lo ((lo + hi) / 2) (by omega)
    else bisect xs x ((lo + hi) / 2 + 1) hi hhi
  else lo
termination_by hi - lo

theorem getElem_le_of_pairwise {xs : List Nat} (hxs : xs.Pairwise (· ≤ ·)) {i j : Nat}
    (hij : i ≤ j) (hj : j < xs.length) : xs[i] ≤ xs[j] := by
  rcases Nat.lt_or_eq_of_le hij with h | rfl
  · exact List.pairwise_iff_getElem.1 hxs i j (by omega) hj h
  · exact Nat.le_refl _

/-- The number of entries up to `x`, where they all stand before those above `x`. -/
theorem countP_eq_of_split {xs : List Nat} {x : Int} {k : Nat} (hk : k ≤ xs.length)
    (hle : ∀ j (hj : j < k), (xs[j] : Int) ≤ x)
    (hlt : ∀ j (hj : j < xs.length), k ≤ j → x < xs[j]) :
    xs.countP (fun (c : Nat) => (c : Int) ≤ x) = k := by
  have hfront : (xs.take k).countP (fun (c : Nat) => (c : Int) ≤ x) = (xs.take k).length := by
    rw [List.countP_eq_length]
    intro c hc
    obtain ⟨j, hj, rfl⟩ := List.mem_take_iff_getElem.1 hc
    exact decide_eq_true (hle j (by omega))
  have hback : (xs.drop k).countP (fun (c : Nat) => (c : Int) ≤ x) = 0 := by
    rw [List.countP_eq_zero]
    intro c hc
    obtain ⟨j, hj, rfl⟩ := List.mem_drop_iff_getElem.1 hc
    have habove : x < xs[k + j] := hlt (k + j) (by omega) (by omega)
    simpa using habove
  calc xs.countP (fun (c : Nat) => (c : Int) ≤ x)
      = (xs.take k ++ xs.drop k).countP (fun (c : Nat) => (c : Int) ≤ x) := by
        rw [List.take_append_drop]
    _ = k := by rw [List.countP_append, hfront, hback, List.length_take, Nat.min_eq_left hk]; rfl

/-- Where entries do not decrease, the search by halves comes to the number of those up to `x`. It
goes on between entries up to `x` on its left and entries above `x` on its right. -/
theorem bisect_eq_countP {xs : List Nat} (hxs : xs.Pairwise (· ≤ ·)) {x : Int} {lo hi : Nat}
    (hhi : hi ≤ xs.length) (hlohi : lo ≤ hi) (hle : ∀ j (hj : j < lo), (xs[j] : Int) ≤ x)
    (hlt : ∀ j (hj : j < xs.length), hi ≤ j → x < xs[j]) :
    bisect xs x lo hi hhi = xs.countP fun (c : Nat) => (c : Int) ≤ x := by
  fun_induction bisect xs x lo hi hhi with
  | case1 lo hi hhi hlo hx ih =>
    refine ih (by omega) hle fun j hj hmid => ?_
    have hmono := getElem_le_of_pairwise hxs hmid hj
    omega
  | case2 lo hi hhi hlo hx ih =>
    refine ih (by omega) (fun j hj => ?_) hlt
    have hmono := getElem_le_of_pairwise hxs (show j ≤ (lo + hi) / 2 by omega) (by omega)
    omega
  | case3 lo hi hhi hlo =>
    exact (countP_eq_of_split (by omega) hle fun j hj hj' => hlt j hj (by omega)).symm

end Weights

namespace Sampler

open Weights (upTo upTo_succ upTo_mono upTo_le_total Owns owns_iff bisect)

variable (s : Sampler)

/-! ### The position of a number -/

theorem length_cumulative : s.cumulative.length = s.weights.length :=
  Weights.length_runningSums 0 s.weights

theorem getElem_cumulative {i : Nat} (hi : i < s.cumulative.length) :
    s.cumulative[i] = upTo s.weights (i + 1) := by
  have h : s.cumulative[i] = 0 + upTo s.weights (i + 1) := Weights.getElem_runningSums hi
  rw [h, Nat.zero_add]

theorem bisect_cumulative (x : Int) :
    bisect s.cumulative x 0 s.cumulative.length (Nat.le_refl _) =
      s.cumulative.countP fun (c : Nat) => (c : Int) ≤ x := by
  have hsorted : s.cumulative.Pairwise (· ≤ ·) := Weights.pairwise_runningSums 0 s.weights
  exact Weights.bisect_eq_countP hsorted (Nat.le_refl _) (Nat.zero_le _)
    (fun j hj => absurd hj (Nat.not_lt_zero j)) (fun j hj hle => absurd hj (Nat.not_lt.2 hle))

/-- Any number stands for the position that the search by halves comes to, the last one at most. -/
theorem index_eq_bisect (x : Int) :
    s.index x =
      min (bisect s.cumulative x 0 s.cumulative.length (Nat.le_refl _)) (s.weights.length - 1) := by
  rw [bisect_cumulative]
  rfl

variable {s} {x : Nat}

theorem owns_index (hx : x < s.total) : Owns s.weights (s.index x) x :=
  owns_iff.2 ⟨s.index_lt x, (s.index_eq_iff hx _).1 rfl⟩

theorem owns_iff_eq_index (hx : x < s.total) {i : Nat} : Owns s.weights i x ↔ i = s.index x := by
  constructor
  · intro h
    exact ((s.index_eq_iff hx i).2 (owns_iff.1 h).2).symm
  · rintro rfl
    exact owns_index hx

/-- For numbers below the total the search ends before the last position is passed. -/
theorem bisect_eq_index (hx : x < s.total) :
    bisect s.cumulative x 0 s.cumulative.length (Nat.le_refl _) = s.index x := by
  obtain ⟨i, hi, hcount, -, -⟩ := Weights.countP_runningSums (Nat.zero_le x)
    (show x < 0 + Weights.total s.weights by rw [Nat.zero_add]; exact hx)
  have hsearch : bisect s.cumulative x 0 s.cumulative.length (Nat.le_refl _) = i :=
    (s.bisect_cumulative x).trans hcount
  rw [index_eq_bisect, hsearch]
  omega

/-- From the left, the position is that of the first running sum above the number. -/
theorem findIdx?_cumulative (hx : x < s.total) :
    s.cumulative.findIdx? (fun c => x < c) = some (s.index x) := by
  obtain ⟨hi, hle, hlt⟩ := owns_iff.1 (owns_index hx)
  rw [List.findIdx?_eq_some_iff_getElem]
  refine ⟨by rw [length_cumulative]; exact hi, ?_, fun j hj => ?_⟩
  · rw [getElem_cumulative]
    exact decide_eq_true hlt
  · have hmono := upTo_mono s.weights (show j + 1 ≤ s.index x from hj)
    rw [getElem_cumulative]
    simp only [decide_eq_true_eq]
    omega

/-! ### Draws -/

variable {ρ : Type} [Dice ρ]

/-- Whether dice are rolled or not, the position is the one that a roll stands for. -/
theorem draw_fst (s : Sampler) (r : ρ) : (s.draw r).1 = s.index (Dice.roll s.total r).1 := by
  unfold draw
  split
  · next hone =>
    have hlt := s.index_lt (Dice.roll s.total r).1
    show 0 = s.index (Dice.roll s.total r).1
    omega
  · rfl

theorem draw_of_roll {r r' : ρ} {x : Int} (hlen : s.weights.length ≠ 1)
    (hr : Dice.roll s.total r = (x, r')) : s.draw r = (s.index x, r') := by
  rw [draw, if_neg hlen, hr]

/-- The numbers by which a position is drawn are as many as its weight says. -/
theorem encard_draw_eq {i : Nat} (hi : i < s.weights.length) :
    {x : Nat | x < s.total ∧ (s.draw (Script.ofList [(x : Int)] false)).1 = i}.encard =
      s.weights[i] := by
  have hdraw (x : Nat) : (s.draw (Script.ofList [(x : Int)] false)).1 = s.index x :=
    s.draw_fst (Script.ofList [(x : Int)] false)
  simp only [hdraw]
  exact s.encard_index_eq hi

theorem draw_ne_of_weight_eq_zero {r : ρ} {x i : Nat} (hr : (Dice.roll s.total r).1 = x)
    (hx : x < s.total) (hi : i < s.weights.length) (hw : s.weights[i] = 0) : (s.draw r).1 ≠ i := by
  intro h
  have hindex : i = s.index x := by rw [← h, draw_fst, hr]
  obtain ⟨hlen, hle, hlt⟩ := (owns_iff_eq_index hx).2 hindex
  rw [hw] at hlt
  omega

/-- A running sum is the one before it, or zero, and the weight between them. -/
theorem getD_cumulative {i : Nat} (hi : i < s.weights.length) :
    s.cumulative.getD i 0 = (if i = 0 then 0 else s.cumulative.getD (i - 1) 0) + s.weights[i] := by
  have hentry {j : Nat} (hj : j < s.weights.length) :
      s.cumulative.getD j 0 = upTo s.weights (j + 1) := by
    have hj' : j < s.cumulative.length := by rw [length_cumulative]; exact hj
    rw [← List.getElem_eq_getD 0, getElem_cumulative]
    exact hj'
  rw [hentry hi, upTo_succ hi]
  cases i with
  | zero => rfl
  | succ j => rw [if_neg (Nat.succ_ne_zero j), Nat.add_sub_cancel, hentry (by omega)]

/-- What lies between two running sums is the weight between them. -/
theorem share?_eq {i : Nat} (hi : i < s.weights.length) :
    s.share? i = some (s.weights[i] : Int) := by
  have hentry {j : Nat} (hj : j < s.weights.length) :
      entry? s.cumulative j = some (upTo s.weights (j + 1)) := by
    have hj' : j < s.cumulative.length := by rw [length_cumulative]; exact hj
    unfold entry?
    rw [if_pos (Int.natCast_nonneg j), Int.toNat_natCast, List.getElem?_eq_getElem hj',
      getElem_cumulative]
  have hpart : (upTo s.weights (i + 1) : Int) - upTo s.weights i = s.weights[i] := by
    rw [upTo_succ hi]
    omega
  rw [← hpart, share?, hentry hi]
  cases i with
  | zero => rfl
  | succ j =>
    have hbefore : ((j + 1 : Nat) : Int) - 1 = j := by omega
    rw [if_pos (by omega), hbefore, hentry (by omega)]

theorem ofInts?_map_ofNat (ws : List Nat) (h : ws ≠ []) :
    ofInts? (ws.map Int.ofNat) = .ok (ofWeights ws h) := by
  have hne : ws.map Int.ofNat ≠ [] := by simpa using h
  have hneg : ¬ (ws.map Int.ofNat).any (· < 0) := by simp
  have hback : (ws.map Int.ofNat).map Int.toNat = ws := by
    rw [List.map_map]
    exact List.map_id'' Int.toNat_natCast ws
  rw [ofInts?, dif_neg hne, if_neg hneg]
  simp only [hback]

/-- Drawing by weights, of which all count as one if all are zero. A single weight needs no dice.
Among several, a number `x` below their total stands for the position `i` that owns it and no other
does; the running sums lead there from the left and by halves. By as many numbers as the weight of a
position says it is drawn, hence by none if its weight is zero and another one is not; and that is
how many lie between its running sum and the one before it, which are divided by the total for its
chance. -/
theorem draw_ofWeights {ρ : Type} [Dice ρ] (ws : List Nat) (h : ws ≠ []) :
    let s := ofWeights ws h
    let es := Weights.effective ws
    ofInts? (ws.map Int.ofNat) = .ok s ∧ s.total = Weights.total es ∧
    (ws.length = 1 → ∀ r : ρ, s.draw r = (0, r)) ∧
    (2 ≤ ws.length → ∀ (r r' : ρ) (x : Nat), x < s.total → Dice.roll s.total r = ((x : Int), r') →
      ∃ i, s.draw r = (i, r') ∧ (∀ j, Owns es j x ↔ j = i) ∧
        s.cumulative.findIdx? (fun c => x < c) = some i ∧
        bisect s.cumulative x 0 s.cumulative.length (Nat.le_refl _) = i) ∧
    (∀ (i : Nat) (hi : i < es.length),
      {x : Nat | x < s.total ∧ (s.draw (Script.ofList [(x : Int)] false)).1 = i}.encard = es[i] ∧
        s.cumulative.getD i 0 = (if i = 0 then 0 else s.cumulative.getD (i - 1) 0) + es[i] ∧
        s.share? i = some (es[i] : Int) ∧
        s.probability i = some (.ofRat (mkRat es[i] s.total))) ∧
    ((∃ w ∈ ws, 0 < w) → ∀ (i : Nat) (hi : i < ws.length), ws[i] = 0 →
      ∀ (r : ρ) (x : Nat), x < s.total → (Dice.roll s.total r).1 = x → (s.draw r).1 ≠ i) := by
  intro s es
  have hlength : s.weights.length = ws.length := Weights.length_effective ws
  refine ⟨ofInts?_map_ofNat ws h, rfl, ?_, ?_, ?_, ?_⟩
  · intro hone r
    rw [draw, if_pos (hlength.trans hone)]
  · intro htwo r r' x hx hr
    exact ⟨s.index x, draw_of_roll (by omega) hr, fun j => owns_iff_eq_index hx,
      findIdx?_cumulative hx, bisect_eq_index hx⟩
  · intro i hi
    have hshare : s.share? i = some (es[i] : Int) := share?_eq hi
    refine ⟨encard_draw_eq hi, getD_cumulative hi, hshare, ?_⟩
    rw [probability, hshare]
    rfl
  · rintro ⟨w, hw, hpos⟩ i hi hzero r x hx hr
    have hsame : es = ws := by
      refine if_neg fun hall => ?_
      have hw0 : w = 0 := by simpa using List.all_eq_true.1 hall w hw
      omega
    have hi' : i < s.weights.length := by omega
    refine draw_ne_of_weight_eq_zero hr hx hi' ?_
    show es[i] = 0
    simp only [hsame]
    exact hzero

/-- With zeros at the start, in the middle and at the end, the number three stands for the weight
behind the running sum three that is met twice. Its chance is rounded to one. -/
theorem draw_ofWeights_zeros :
    let ws := [0, 3, 0, 18446744073709551616, 0]
    let hws : ws ≠ [] := List.cons_ne_nil _ _
    let s := ofWeights ws hws
    let dice := Script.ofList [3] false
    s.total = 18446744073709551619 ∧ Dice.roll s.total dice = (3, dice.next.2) ∧
      s.draw dice = (3, dice.next.2) ∧ (∀ j, Owns ws j 3 ↔ j = 3) ∧
      bisect s.cumulative 3 0 5 (Nat.le_refl 5) = 3 ∧
      {x : Nat | x < s.total ∧ (s.draw (Script.ofList [(x : Int)] false)).1 = 3}.encard =
        18446744073709551616 ∧
      s.share? 3 = some 18446744073709551616 ∧
      s.probability 3 = some ⟨false, 0x3FF0000000000000⟩ ∧
      (s.draw dice).1 ≠ 2 := by
  intro ws hws s dice
  have hroll : Dice.roll s.total dice = (3, dice.next.2) := rfl
  obtain ⟨-, -, -, hdraw, hcount, hzero⟩ := draw_ofWeights (ρ := Script) ws hws
  obtain ⟨i, hi, howns, hfind, hbisect⟩ :=
    hdraw (by decide) dice dice.next.2 3 (by decide) hroll
  have h3 : i = 3 := by
    have hscan : s.cumulative.findIdx? (fun c => 3 < c) = some 3 := by decide
    rw [hscan] at hfind
    exact (Option.some.inj hfind).symm
  subst h3
  obtain ⟨hencard, -, hshare, hprobability⟩ := hcount 3 (by decide)
  have hrounded : Binary64.ofRat (mkRat 18446744073709551616 18446744073709551619) =
      ⟨false, 0x3FF0000000000000⟩ := by decide +kernel
  exact ⟨rfl, hroll, hi, howns, hbisect, hencard, hshare, hprobability.trans (congrArg _ hrounded),
    hzero ⟨3, by decide, by decide⟩ 2 (by decide) rfl dice 3 (by decide) rfl⟩

end Sampler

end PairGrammar
