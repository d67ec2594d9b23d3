import PairGrammar.Evaluation.Depth
import PairGrammar.Grammar
import PairGrammar.Pair

/-!
# Evaluation

A variable is evaluated by choosing one of its productions and then evaluating every variable that
the production refers to, each once, in the order of its first occurrence; the values take the
place of the references. Evaluations nest, and going deeper than the limit ends all of them.

The nesting is held in a list. A frame is a production of which some references are still without
a value; the frame at work is evaluated, the others wait, each for the value of one variable. A
step either goes deeper, or gives the pair of the frame at work to the frame that waits for it, or
ends the evaluation.

Steps come to an end because the limit bounds the nesting. Let `b` exceed by two the number of
references of the whole grammar. A reference that is still without a value at a frame with `r`
levels left weighs `b ^ r`, a frame weighs one more than its references together, and `cost` adds
up the frames. Going deeper trades a reference for a frame of less weight, and every other step
takes a frame away.
-/

namespace PairGrammar

/-- How an evaluation ends. -/
inductive Outcome
  | pair (value : Pair)
  | limitReached (limit : Int) (name : Name)
  | undefined (name : Name)
  | unbalanced
  deriving DecidableEq, Repr

/-- The end of an evaluation, with the depth and the dice that it leaves behind. -/
structure Evaluated (ρ : Type) where
  outcome : Outcome
  depth : Depth
  dice : ρ

/-- A production under evaluation. -/
structure Frame where
  production : Production
  pending : List Name
  values : List (Name × Pair)
  deriving DecidableEq, Repr

namespace Frame

def start (p : Production) : Frame := ⟨p, p.references, []⟩

def receive (f : Frame) (n : Name) (value : Pair) : Frame :=
  { f with values := (n, value) :: f.values }

def value? (f : Frame) (n : Name) : Option Pair := f.values.lookup n

def render (f : Frame) : Except Name Pair := f.production.render f.value?

end Frame

/-- An evaluation at work: its innermost frame, the frames around it, each with the name whose
value it waits for, and the depth and dice that all of them share. -/
structure Run (ρ : Type) where
  frame : Frame
  waiting : List (Name × Frame)
  depth : Depth
  dice : ρ

namespace Run

variable {ρ : Type} [Dice ρ]

def start (p : Production) (d : Depth) (r : ρ) : Run ρ := ⟨.start p, [], d, r⟩

def stop (r : Run ρ) (o : Outcome) : Evaluated ρ := ⟨o, r.depth, r.dice⟩

/-- The frame at work turns to the variable `n` and keeps `rest` for later. -/
def descend (g : Grammar) (r : Run ρ) (n : Name) (rest : List Name) : Run ρ ⊕ Evaluated ρ :=
  let deeper := { r with depth := r.depth.enter }
  if deeper.depth.isBelowLimit then
    match g.find? n with
    | none => .inr (deeper.stop (.undefined n))
    | some v => match v.choose r.dice with
      | (p, dice) =>
        .inl ⟨.start p, (n, { r.frame with pending := rest }) :: r.waiting, deeper.depth, dice⟩
  else .inr (deeper.stop (.limitReached r.depth.limit n))

/-- The pair of the frame at work goes to the frame that waits for it. -/
def ascend (r : Run ρ) (value : Pair) : Run ρ ⊕ Evaluated ρ :=
  match r.waiting with
  | [] => .inr (r.stop (.pair value))
  | (n, f) :: waiting => match r.depth.leave? with
    | none => .inr (r.stop .unbalanced)
    | some depth => .inl ⟨f.receive n value, waiting, depth, r.dice⟩

def step (g : Grammar) (r : Run ρ) : Run ρ ⊕ Evaluated ρ :=
  match r.frame.pending with
  | n :: rest => r.descend g n rest
  | [] => match r.frame.render with
    | .error n => .inr (r.stop (.undefined n))
    | .ok value => r.ascend value

/-! ### Steps come to an end -/

/-- The weight of frames that have the given numbers of references to go, the innermost first and
with `room` levels left. -/
def weigh (b : Nat) : (room : Nat) → List Nat → Nat
  | _, [] => 0
  | room, k :: ks => k * Nat.pow b room + 1 + weigh b (room + 1) ks

def base (g : Grammar) : Nat := (g.vocabulary.flatMap Variable.mentions).length + 2

def cost (g : Grammar) (r : Run ρ) : Nat :=
  weigh (base g) r.depth.room (r.frame.pending.length :: r.waiting.map (·.2.pending.length))

theorem weigh_mono {b room room' : Nat} (hb : 0 < b) (h : room ≤ room') (ks : List Nat) :
    weigh b room ks ≤ weigh b room' ks := by
  induction ks generalizing room room' with
  | nil => exact Nat.le_refl _
  | cons k ks ih =>
    have : k * Nat.pow b room ≤ k * Nat.pow b room' :=
      Nat.mul_le_mul_left k (Nat.pow_le_pow_right hb h)
    have := ih (Nat.add_le_add_right h 1)
    simp only [weigh]
    omega

theorem length_le_length_flatMap {α β : Type} {a : α} {l : List α} (h : a ∈ l) (f : α → List β) :
    (f a).length ≤ (l.flatMap f).length := by
  induction l with
  | nil => cases h
  | cons b l ih =>
    simp only [List.flatMap_cons, List.length_append]
    rcases List.mem_cons.1 h with rfl | h
    · omega
    · have := ih h
      omega

theorem references_lt_base {g : Grammar} {n : Name} {v : Variable} (h : g.find? n = some v)
    (r : ρ) : (v.choose r).1.references.length + 2 ≤ base g :=
  Nat.add_le_add_right (Nat.le_trans (length_le_length_flatMap (v.choose_mem r) _)
    (length_le_length_flatMap (List.mem_of_find?_eq_some h) Variable.mentions)) 2

theorem cost_lt_of_descend {g : Grammar} {r s : Run ρ} {n : Name} {rest : List Name}
    (hp : r.frame.pending = n :: rest) (h : r.descend g n rest = .inl s) : s.cost g < r.cost g := by
  unfold descend at h
  dsimp only at h
  split at h
  · next hd =>
    split at h
    · cases h
    · next v hv =>
      cases h
      have hr := Depth.room_enter_succ hd
      have hb := references_lt_base hv r.dice
      simp only [cost, weigh, Frame.start, List.map_cons, hp, List.length_cons]
      have next : Nat.pow (base g) (r.depth.enter.room + 1) =
          Nat.pow (base g) r.depth.enter.room * base g := rfl
      rw [← hr, next]
      generalize (v.choose r.dice).1.references.length = k at hb
      generalize hP : Nat.pow (base g) r.depth.enter.room = P
      have : k * P + 2 * P ≤ P * base g := by
        rw [← Nat.add_mul, Nat.mul_comm]
        exact Nat.mul_le_mul_left _ hb
      have : 0 < P := hP ▸ Nat.pow_pos (by unfold base; omega)
      rw [Nat.add_mul]
      omega
  · cases h

omit [Dice ρ] in
theorem cost_lt_of_ascend {g : Grammar} {r s : Run ρ} {value : Pair}
    (h : r.ascend value = .inl s) : s.cost g < r.cost g := by
  unfold ascend at h
  split at h
  · cases h
  · next n f waiting hw =>
    split at h
    · cases h
    · next depth hd =>
      cases h
      have := weigh_mono (b := base g) (by unfold base; omega) (Depth.room_leave?_le hd)
        (f.pending.length :: waiting.map (·.2.pending.length))
      simp only [cost, hw, List.map_cons, Frame.receive]
      rw [weigh.eq_2 _ r.depth.room]
      omega

theorem cost_lt_of_step {g : Grammar} {r s : Run ρ} (h : r.step g = .inl s) :
    s.cost g < r.cost g := by
  unfold step at h
  split at h
  · next hp => exact cost_lt_of_descend hp h
  · split at h
    · cases h
    · exact cost_lt_of_ascend h

/-- Steps up to the end. -/
def finish (g : Grammar) (r : Run ρ) : Evaluated ρ :=
  match _h : r.step g with
  | .inl s => finish g s
  | .inr e => e
termination_by r.cost g
decreasing_by exact cost_lt_of_step _h

end Run

/-- Evaluates a variable, starting at the given depth. -/
def Grammar.evaluate {ρ : Type} [Dice ρ] (g : Grammar) (n : Name) (d : Depth) (r : ρ) :
    Evaluated ρ :=
  match g.find? n with
  | none => ⟨.undefined n, d, r⟩
  | some v => match v.choose r with
    | (p, r') => (Run.start p d r').finish g

end PairGrammar
