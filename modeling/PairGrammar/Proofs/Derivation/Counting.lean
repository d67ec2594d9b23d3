import PairGrammar.Proofs.Derivation.Following
import PairGrammar.Proofs.Sampler.Intervals
import Mathlib.Data.List.Forall2

/-!
# How many draws follow a derivation tree

Dice are rolled at those nodes of a derivation tree whose variable has several productions, each
time for a number below the total of the weights. Scripted dice give such numbers from a list. The
lists that make an evaluation follow a tree are those whose numbers fall into the intervals of the
choices, one by one, so the product of the weights says how many there are.

* `Choice.encard_index_eq`: as many numbers stand for a production as its weight says.
* `draws_scripted_iff`: scripted dice follow choices if each number stands for the position.
* `rolls_of_draws`: the totals that dice are rolled for while they follow choices.
* `encard_draws_of_derivation`: the number of lists that make an evaluation follow a tree, and the
  pair and the rolls that it ends with; and that each pair comes from exactly one tree.
-/

namespace PairGrammar

open List (Forall₂)

/-! ### Numbers and productions -/

theorem Weights.getElem_effective {ws : List Nat} {i : Nat} (h : i < (effective ws).length)
    (h' : i < ws.length) : (effective ws)[i] = if ws.all (· == 0) then 1 else ws[i] := by
  unfold effective at h ⊢
  split <;> simp

namespace Choice

theorem getElem_weights (c : Choice) (h : c.position.val < c.owner.sampler.weights.length) :
    c.owner.sampler.weights[c.position.val] = c.weight := by
  have hw : c.position.val < c.owner.weights.length := by
    rw [Variable.weights, List.length_map]
    exact c.position.isLt
  refine (Weights.getElem_effective h hw).trans ?_
  simp [weight, Variable.weights]

/-- As many numbers stand for the production of a choice as its weight says. -/
theorem encard_index_eq (c : Choice) :
    {x : Nat | x < c.total ∧ c.owner.sampler.index x = c.position}.encard = c.weight := by
  have h : c.position.val < c.owner.sampler.weights.length := by
    rw [c.owner.length_sampler]
    exact c.position.isLt
  rw [← c.getElem_weights h]
  exact c.owner.sampler.encard_index_eq h

end Choice

/-- The choices at which dice are rolled. -/
def openChoices (cs : List Choice) : List Choice := cs.filter Choice.isOpen

/-- The totals that dice are rolled for. -/
def totals (cs : List Choice) : List Nat := (openChoices cs).map Choice.total

/-- The weights of the choices at which dice are rolled, multiplied. -/
def weightProduct (cs : List Choice) : Nat := ((openChoices cs).map Choice.weight).prod

theorem openChoices_cons_of_isOpen {c : Choice} (h : c.isOpen) (cs : List Choice) :
    openChoices (c :: cs) = c :: openChoices cs := List.filter_cons_of_pos h

theorem openChoices_cons_of_not_isOpen {c : Choice} (h : c.isOpen = false) (cs : List Choice) :
    openChoices (c :: cs) = openChoices cs := List.filter_cons_of_neg (by simp [h])

/-! ### Rolls along choices -/

section

variable {ρ : Type} [Dice ρ] {c : Choice}

/-- Where there is one production only, dice are not rolled. -/
theorem draw_of_not_isOpen (h : c.isOpen = false) (r : ρ) : c.owner.draw r = (c, r) := by
  obtain ⟨v, i⟩ := c
  have hlen : v.entries.length = 1 := by
    have hpos := List.length_pos_iff.2 v.entries_ne_nil
    have hlt : ¬ 2 ≤ v.entries.length := of_decide_eq_false h
    omega
  have hdraw : v.sampler.draw r = (0, r) := by
    rw [Sampler.draw, if_pos (by rw [v.length_sampler, hlen])]
  have hi : i.val = 0 := by omega
  have hfirst : (v.draw r).1 = ⟨v, i⟩ := (Choice.draw_eq_iff ⟨v, i⟩ r).2 (by rw [hdraw, hi])
  have hsecond : (v.draw r).2 = r := by
    show (v.sampler.draw r).2 = r
    rw [hdraw]
  exact Prod.ext hfirst hsecond

theorem draw_of_isOpen (h : c.isOpen) (r : ρ) :
    c.owner.sampler.draw r =
      (c.owner.sampler.index (Dice.roll c.total r).1, (Dice.roll c.total r).2) := by
  have hlen : ¬ c.owner.sampler.weights.length = 1 := by
    have : 2 ≤ c.owner.entries.length := of_decide_eq_true h
    rw [c.owner.length_sampler]
    omega
  rw [Sampler.draw, if_neg hlen]
  rfl

/-- Dice that follow choices are rolled once for the total of each choice that is open. -/
theorem rolls_of_draws {cs : List Choice} {r r' : Recorded ρ} (h : Draws cs r r') :
    r'.rolls.map Prod.snd = (totals cs).reverse ++ r.rolls.map Prod.snd := by
  induction h with
  | nil r => rfl
  | @cons c cs r r' first rest ih =>
    rw [ih]
    cases hc : c.isOpen with
    | false => rw [totals, totals, openChoices_cons_of_not_isOpen hc, draw_of_not_isOpen hc]
    | true =>
      have hrolls : (c.owner.draw r).2.rolls.map Prod.snd = c.total :: r.rolls.map Prod.snd := by
        show (c.owner.sampler.draw r).2.rolls.map Prod.snd = _
        rw [draw_of_isOpen hc]
        rfl
      rw [hrolls, totals, totals, openChoices_cons_of_isOpen hc, List.map_cons, List.reverse_cons,
        List.append_assoc, List.singleton_append]

end

/-! ### Scripted dice -/

/-- Dice that give the numbers `xs`, and others later. -/
def Recorded.scripted (later : List Int) (xs : List Nat) (rolls : List (Int × Nat)) :
    Recorded Script := ⟨⟨later, xs.map Int.ofNat, false⟩, rolls⟩

/-- The rolls of numbers for totals, the latest first. -/
def rollsOf (xs ts : List Nat) : List (Int × Nat) :=
  (List.zipWith (fun (x t : Nat) => ((x : Int), t)) xs ts).reverse

open Recorded (scripted)

theorem draws_cons {ρ : Type} [Dice ρ] {c : Choice} {cs : List Choice} {r r' : ρ} :
    Draws (c :: cs) r r' ↔ (c.owner.draw r).1 = c ∧ Draws cs (c.owner.draw r).2 r' := by
  constructor
  · intro h
    cases h with
    | cons first rest => exact ⟨first, rest⟩
  · rintro ⟨first, rest⟩
    exact .cons first rest

/-- Scripted dice follow choices if each number stands for the position of its choice. The numbers
are used up then. -/
theorem draws_scripted_iff (later : List Int) (rolls : List (Int × Nat)) {cs : List Choice}
    {xs : List Nat} {r' : Recorded Script} (h : xs.length = (totals cs).length) :
    Draws cs (scripted later xs rolls) r' ↔
      Forall₂ (fun (x : Nat) c => c.owner.sampler.index x = c.position) xs (openChoices cs) ∧
        r' = scripted later [] (rollsOf xs (totals cs) ++ rolls) := by
  induction cs generalizing xs rolls with
  | nil =>
    obtain rfl : xs = [] := List.length_eq_zero_iff.1 h
    constructor
    · intro hd
      cases hd
      exact ⟨.nil, rfl⟩
    · rintro ⟨-, rfl⟩
      exact .nil _
  | cons c cs ih =>
    rw [draws_cons]
    cases hc : c.isOpen with
    | false =>
      rw [totals, openChoices_cons_of_not_isOpen hc] at h ⊢
      rw [draw_of_not_isOpen hc, and_iff_right rfl]
      exact ih rolls h
    | true =>
      rw [totals, openChoices_cons_of_isOpen hc] at h ⊢
      obtain ⟨x, xs, rfl⟩ := List.exists_cons_of_length_eq_add_one (by simpa using h)
      have hdraw : c.owner.sampler.draw (scripted later (x :: xs) rolls) =
          (c.owner.sampler.index x, scripted later xs ((x, c.total) :: rolls)) :=
        draw_of_isOpen hc _
      have hrest : (c.owner.draw (scripted later (x :: xs) rolls)).2 =
          scripted later xs ((x, c.total) :: rolls) := congrArg Prod.snd hdraw
      have hrolls : rollsOf (x :: xs) ((c :: openChoices cs).map Choice.total) ++ rolls =
          rollsOf xs (totals cs) ++ (((x : Int), c.total) :: rolls) := by
        simp [rollsOf, totals]
      rw [Choice.draw_eq_iff, hdraw, hrest, ih _ (by simpa [totals] using h), List.forall₂_cons,
        hrolls, and_assoc]

/-! ### Counting lists -/

theorem forall₂_and_iff {α β : Type} {R S : α → β → Prop} {as : List α} {bs : List β} :
    Forall₂ (fun a b => R a b ∧ S a b) as bs ↔ Forall₂ R as bs ∧ Forall₂ S as bs := by
  constructor
  · intro h
    exact ⟨h.imp fun _ _ h => h.1, h.imp fun _ _ h => h.2⟩
  · rintro ⟨h, h'⟩
    induction h with
    | nil => exact .nil
    | cons hab _ ih =>
      cases h' with
      | cons hab' h' => exact .cons ⟨hab, hab'⟩ (ih h')

/-- Lists with an entry for each of given ones are counted by a product. -/
theorem encard_forall₂ {α β : Type} {R : α → β → Prop} {count : β → Nat}
    (h : ∀ b, {a | R a b}.encard = count b) (bs : List β) :
    {as | Forall₂ R as bs}.encard = (bs.map count).prod := by
  induction bs with
  | nil => simp
  | cons b bs ih =>
    have hcons : {as | Forall₂ R as (b :: bs)} =
        (fun p : α × List α => p.1 :: p.2) '' ({a | R a b} ×ˢ {as | Forall₂ R as bs}) := by
      ext as
      constructor
      · rintro (_ | ⟨ha, has⟩)
        exact ⟨⟨_, _⟩, ⟨ha, has⟩, rfl⟩
      · rintro ⟨⟨a, as⟩, ⟨ha, has⟩, rfl⟩
        exact .cons ha has
    have hinj : Function.Injective fun p : α × List α => p.1 :: p.2 := by
      rintro ⟨a, as⟩ ⟨b, bs⟩ h
      obtain ⟨rfl, rfl⟩ := List.cons.inj h
      rfl
    rw [hcons, hinj.encard_image, Set.encard_prod, h, ih, List.map_cons, List.prod_cons]
    norm_cast

variable {g : Grammar} {n : Name}

/-- Scripted dice make an evaluation follow a tree if each number stands for the position of the
choice that it is rolled for. -/
theorem isFollowed_scripted_iff (t : Derivation g n) {d : Depth} (ht : d.Admits t.height)
    (later : List Int) {xs : List Nat} (h : xs.length = (totals t.choices).length) :
    t.IsFollowed d (scripted later xs []) ↔
      Forall₂ (fun (x : Nat) c => c.owner.sampler.index x = c.position) xs
        (openChoices t.choices) := by
  rw [t.isFollowed_iff ht]
  constructor
  · rintro ⟨r', hr⟩
    exact ((draws_scripted_iff later [] h).1 hr).1
  · intro hxs
    exact ⟨_, (draws_scripted_iff later [] h).2 ⟨hxs, rfl⟩⟩

/-- The lists of numbers below the totals that make an evaluation follow a tree. -/
theorem encard_isFollowed (t : Derivation g n) {d : Depth} (ht : d.Admits t.height)
    (later : List Int) :
    {xs | Forall₂ (· < ·) xs (totals t.choices) ∧ t.IsFollowed d (scripted later xs [])}.encard =
      weightProduct t.choices := by
  have hset : {xs | Forall₂ (· < ·) xs (totals t.choices) ∧
      t.IsFollowed d (scripted later xs [])} =
      {xs | Forall₂ (fun (x : Nat) c => x < c.total ∧ c.owner.sampler.index x = c.position) xs
        (openChoices t.choices)} := by
    ext xs
    rw [Set.mem_ofPred_eq, Set.mem_ofPred_eq, forall₂_and_iff, totals, List.forall₂_map_right_iff]
    refine and_congr_right fun hxs => isFollowed_scripted_iff t ht later ?_
    rw [totals, List.length_map, hxs.length_eq]
  rw [hset]
  exact encard_forall₂ Choice.encard_index_eq _

/-- Let the level limit admit a derivation tree. Among the lists of numbers below its totals,
exactly as many make the evaluation follow the tree as the product of the weights says. Each of
them is used up, number by number, and leads to the texts of the tree. In turn an evaluation that
ends with a pair follows one derivation tree and no other; the limit admits this tree, the pair is
that of its texts, and the dice have been rolled for its totals. -/
theorem encard_draws_of_derivation {g : Grammar} (hg : g.IsClosed) {n : Name}
    (hn : (g.find? n).isSome) (limit : Int) :
    (∀ t : Derivation g n, t.height = 0 ∨ (t.height : Int) < limit → ∀ later : List Int,
      {xs | Forall₂ (· < ·) xs (totals t.choices) ∧
        t.IsFollowed ⟨limit, 0⟩ (scripted later xs [])}.encard = weightProduct t.choices ∧
      ∃ value, t.render = .ok value ∧ ∀ xs, Forall₂ (· < ·) xs (totals t.choices) →
        t.IsFollowed ⟨limit, 0⟩ (scripted later xs []) →
        g.evaluate n ⟨limit, 0⟩ (scripted later xs []) =
          ⟨.pair value, ⟨limit, 0⟩, scripted later [] (rollsOf xs (totals t.choices))⟩) ∧
    ∀ {ρ : Type} [Dice ρ] {r r' : Recorded ρ} {value : Pair} {d : Depth},
      g.evaluate n ⟨limit, 0⟩ r = ⟨.pair value, d, r'⟩ →
      ∃ t : Derivation g n, (t.height = 0 ∨ (t.height : Int) < limit) ∧
        t.IsFollowed ⟨limit, 0⟩ r ∧ t.render = .ok value ∧
        r'.rolls.map Prod.snd = (totals t.choices).reverse ++ r.rolls.map Prod.snd ∧
        ∀ t' : Derivation g n, t'.IsFollowed ⟨limit, 0⟩ r → t' = t := by
  have hadmits (h : Nat) : (⟨limit, 0⟩ : Depth).Admits h ↔ h = 0 ∨ (h : Int) < limit := by
    rw [Depth.Admits, Nat.zero_add]
  constructor
  · intro t ht later
    have ht := (hadmits t.height).2 ht
    obtain ⟨value, hv⟩ := t.render_isOk
    refine ⟨encard_isFollowed t ht later, value, hv, fun xs hxs hf => ?_⟩
    have hindex := (isFollowed_scripted_iff t ht later hxs.length_eq).1 hf
    have hr := (draws_scripted_iff later [] hxs.length_eq).2 ⟨hindex, rfl⟩
    rw [List.append_nil] at hr
    exact (t.evaluate_of_draws ht hr hv).2
  · intro ρ _ r r' value d he
    obtain ⟨t, ht, hv, hr⟩ := exists_derivation hg hn he
    have hf : t.IsFollowed ⟨limit, 0⟩ r := (t.isFollowed_iff ht).2 ⟨r', hr⟩
    refine ⟨t, (hadmits t.height).1 ht, hf, hv, rolls_of_draws hr, fun t' hf' => ?_⟩
    exact Derivation.eq_of_choices_eq (hf'.symm.trans hf)

/-- The variable that may go on with itself, going on once. -/
def Derivation.once : Derivation .repetition Name.output :=
  .node (v := Grammar.repetition.rootVariable) rfl ⟨1, by decide⟩
    (.cons (.node (v := Grammar.repetition.rootVariable) rfl ⟨0, by decide⟩ .nil) .nil)

/-- Of the nine lists of two numbers below three, two make the variable go on once. -/
theorem encard_draws_once :
    Grammar.repetition.IsClosed ∧ (Grammar.repetition.find? Name.output).isSome ∧
      (Derivation.once.height = 0 ∨ (Derivation.once.height : Int) < 2) ∧
      {xs | Forall₂ (· < ·) xs [3, 3] ∧
        Derivation.once.IsFollowed ⟨2, 0⟩ (scripted [] xs [])}.encard = 2 ∧
      Grammar.repetition.evaluate Name.output ⟨2, 0⟩ (scripted [] [2, 1] []) =
        ⟨.pair ⟨['x', ' ', 'x'], ['y', 'z']⟩, ⟨2, 0⟩, scripted [] [] [(1, 3), (2, 3)]⟩ ∧
      ∀ t : Derivation .repetition Name.output,
        t.IsFollowed ⟨2, 0⟩ (scripted [] [2, 1] []) → t = Derivation.once := by
  have hn : (Grammar.repetition.find? Name.output).isSome := by decide
  have ht : Derivation.once.height = 0 ∨ (Derivation.once.height : Int) < 2 := .inr (by decide)
  have hf : Derivation.once.IsFollowed ⟨2, 0⟩ (scripted [] [2, 1] []) := by
    unfold Derivation.IsFollowed
    with_unfolding_all rfl
  obtain ⟨hdraws, hpairs⟩ := encard_draws_of_derivation Grammar.isClosed_repetition hn 2
  obtain ⟨hcount, value, hv, h⟩ := hdraws Derivation.once ht []
  have hp : Derivation.once.render = .ok ⟨['x', ' ', 'x'], ['y', 'z']⟩ := rfl
  obtain rfl := Except.ok.inj (hp.symm.trans hv)
  have he := h [2, 1] (.cons (by decide) (.cons (by decide) .nil)) hf
  obtain ⟨t, -, -, -, -, honly⟩ := hpairs he
  refine ⟨Grammar.isClosed_repetition, hn, ht, hcount, he, fun t' ht' => ?_⟩
  rw [honly t' ht', honly Derivation.once hf]

end PairGrammar
