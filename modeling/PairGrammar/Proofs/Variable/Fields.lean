import Mathlib.Algebra.BigOperators.Ring.Finset
import PairGrammar.Proofs.Variable.Drafts

/-!
# Drafts in separate fields

A draft has each production together with its weight, and adds the weights up whenever their total
is asked for. The productions and the weights may as well be kept in two lists, with a running total
that grows with every weight, and the variable may be kept that was made when the draft was frozen.
Both answer all requests in the same way, so in the separate fields the lists stay equally long, the
running total stays the sum of the weights, and the variable stays the one of the lists.

* `Builder`: the separate fields, and what requests do to them.
* `Represents`: a draft and separate fields that hold the same.
* `Represents.answer`, `Represents.serve`: one request, and any number of them.
* `Builder.serve_new`: what holds of the separate fields.
-/

namespace PairGrammar

open Draft (Request Answer Transcript IsLogged)

structure Builder where
  name : Name
  productions : List Production := []
  weights : List Int := []
  total : Int := 0
  frozen : Option Variable := none

namespace Builder

def overflows (b : Builder) (weight : Int) : Bool := maxWeight < b.total + weight

/-- Whether a production is taken, and the fields behind it. -/
def insert (b : Builder) (p : Production) (weight : Int) : Except Failure (Bool × Builder) :=
  if weight < 0 then .error .brokenPromise
  else if b.frozen.isSome || b.overflows weight then .ok (false, b)
  else .ok (true, { b with
    productions := b.productions ++ [p]
    weights := b.weights ++ [weight]
    total := b.total + weight })

/-- The variable that has been made before, or else one of the lists as they are. -/
def finish (b : Builder) : Except Failure (Variable × Builder) :=
  match b.frozen with
  | some v => .ok (v, b)
  | none => match Variable.ofLists? b.name b.productions b.weights with
    | .error e => .error e
    | .ok v => .ok (v, { b with frozen := some v })

def answer (b : Builder) : Request → Answer × Builder
  | .insert p weight => match b.insert p weight with
    | .error e => (.failed e, b)
    | .ok (taken, b') => (.truth taken, b')
  | .overflows weight => (.truth (b.overflows weight), b)
  | .finish => match b.finish with
    | .error e => (.failed e, b)
    | .ok (v, b') => (.frozen v, b')

def serve (b : Builder) : List Request → Transcript × Builder
  | [] => ([], b)
  | q :: qs => ((q, (b.answer q).1) :: ((b.answer q).2.serve qs).1, ((b.answer q).2.serve qs).2)

end Builder

/-- Productions and weights that are taken apart make the variable again. -/
theorem Variable.ofLists?_of_entries (name : Name) {entries : List (Production × Nat)}
    (h : entries ≠ []) :
    ofLists? name (entries.map Prod.fst) (entries.map fun e => (e.2 : Int)) =
      .ok ⟨name, entries, h⟩ := by
  have hne : entries.map Prod.fst ≠ [] := by simpa using h
  have hlength : ¬ (entries.map Prod.fst).length ≠ (entries.map fun e => (e.2 : Int)).length := by
    simp
  have hneg : ¬ (entries.map fun e => (e.2 : Int)).any (· < 0) := by simp
  have hback : (entries.map Prod.fst).zip ((entries.map fun e => (e.2 : Int)).map Int.toNat) =
      entries := by
    rw [List.map_map]
    exact (List.zip_of_prod rfl rfl).symm
  rw [ofLists?, dif_neg hne, dif_neg hlength, if_neg hneg]
  simp only [hback]

/-- A draft and separate fields that hold the same. -/
structure Represents (d : Draft) (b : Builder) : Prop where
  name_eq : b.name = d.name
  productions_eq : b.productions = d.entries.map Prod.fst
  weights_eq : b.weights = d.entries.map fun e => (e.2 : Int)
  total_eq : b.total = d.total
  isSome_frozen : b.frozen.isSome = d.isSealed
  of_frozen : ∀ v, b.frozen = some v → v.name = d.name ∧ v.entries = d.entries

namespace Represents

variable {d : Draft} {b : Builder}

theorem new (name : Name) : Represents { name := name } { name := name } where
  name_eq := rfl
  productions_eq := rfl
  weights_eq := rfl
  total_eq := rfl
  isSome_frozen := rfl
  of_frozen v hv := by cases hv

theorem overflows_eq (h : Represents d b) (w : Int) : b.overflows w = d.overflows w := by
  rw [Builder.overflows, Draft.overflows, h.total_eq]

/-- One production more, with a weight that is not negative. -/
theorem append (h : Represents d b) (hopen : d.isSealed = false) (p : Production) {w : Int}
    (hw : 0 ≤ w) :
    Represents { d with entries := d.entries ++ [(p, w.toNat)] }
      { b with
        productions := b.productions ++ [p], weights := b.weights ++ [w], total := b.total + w } where
  name_eq := h.name_eq
  productions_eq := by rw [h.productions_eq, List.map_append]; rfl
  weights_eq := by
    rw [h.weights_eq, List.map_append, List.map_singleton, Int.toNat_of_nonneg hw]
  total_eq := by
    have hsum : Weights.total ((d.entries ++ [(p, w.toNat)]).map Prod.snd) = d.total + w.toNat := by
      rw [List.map_append, Weights.total_append]
      rfl
    show b.total + w = (Weights.total ((d.entries ++ [(p, w.toNat)]).map Prod.snd) : Nat)
    rw [hsum, h.total_eq]
    omega
  isSome_frozen := h.isSome_frozen
  of_frozen v hv := by
    have hsealed : d.isSealed = true := by rw [← h.isSome_frozen, hv]; rfl
    rw [hopen] at hsealed
    cases hsealed

theorem answer_insert (h : Represents d b) (p : Production) (w : Int) :
    (b.answer (.insert p w)).1 = (d.answer (.insert p w)).1 ∧
      Represents (d.answer (.insert p w)).2 (b.answer (.insert p w)).2 := by
  rw [Builder.answer, Draft.answer, Builder.insert, Draft.insert, h.isSome_frozen, h.overflows_eq]
  by_cases hneg : w < 0
  · rw [if_pos hneg, if_pos hneg]
    exact ⟨rfl, h⟩
  · rw [if_neg hneg, if_neg hneg]
    by_cases hfull : d.isSealed || d.overflows w
    · rw [if_pos hfull, if_pos hfull]
      exact ⟨rfl, h⟩
    · rw [if_neg hfull, if_neg hfull]
      have hopen : d.isSealed = false := by
        rw [Bool.or_eq_true, not_or, Bool.not_eq_true] at hfull
        exact hfull.1
      exact ⟨rfl, h.append hopen p (Int.not_lt.1 hneg)⟩

/-- The variable that was made before is the one that the draft gives again. -/
theorem answer_finish_of_frozen (h : Represents d b) {v : Variable} (hv : b.frozen = some v) :
    d.answer .finish = (.frozen v, d) := by
  obtain ⟨hname, hentries⟩ := h.of_frozen v hv
  have hsealed : d.isSealed = true := by rw [← h.isSome_frozen, hv]; rfl
  have hne : d.entries ≠ [] := hentries ▸ v.entries_ne_nil
  have hsame : v = ⟨d.name, d.entries, hne⟩ := by
    obtain ⟨vname, ventries, vne⟩ := v
    cases hname
    cases hentries
    rfl
  have hd : ({ d with isSealed := true } : Draft) = d := by rw [← hsealed]
  rw [Draft.answer_finish hne, hd, hsame]

theorem answer_finish (h : Represents d b) :
    (b.answer .finish).1 = (d.answer .finish).1 ∧
      Represents (d.answer .finish).2 (b.answer .finish).2 := by
  rw [Builder.answer, Builder.finish]
  cases hv : b.frozen with
  | some v =>
    rw [h.answer_finish_of_frozen hv]
    exact ⟨rfl, h⟩
  | none =>
    dsimp only
    rw [h.name_eq, h.productions_eq, h.weights_eq]
    by_cases hne : d.entries = []
    · rw [Draft.answer_finish_of_nil hne, Variable.ofLists?, dif_pos (by rw [hne]; rfl)]
      exact ⟨rfl, h⟩
    · rw [Draft.answer_finish hne, Variable.ofLists?_of_entries d.name hne]
      refine ⟨rfl, rfl, rfl, rfl, h.total_eq, rfl, fun v hfrozen => ?_⟩
      cases hfrozen
      exact ⟨rfl, rfl⟩

/-- One request. -/
theorem answer (h : Represents d b) (q : Request) :
    (b.answer q).1 = (d.answer q).1 ∧ Represents (d.answer q).2 (b.answer q).2 := by
  cases q with
  | insert p w => exact h.answer_insert p w
  | overflows w => exact ⟨congrArg Answer.truth (h.overflows_eq w), h⟩
  | finish => exact h.answer_finish

/-- Any number of requests. -/
theorem serve (h : Represents d b) (qs : List Request) :
    (b.serve qs).1 = (d.serve qs).1 ∧ Represents (d.serve qs).2 (b.serve qs).2 := by
  induction qs generalizing d b with
  | nil => exact ⟨rfl, h⟩
  | cons q qs ih =>
    obtain ⟨hfirst, hnext⟩ := h.answer q
    obtain ⟨hrest, hlast⟩ := ih hnext
    rw [Builder.serve, Draft.serve, hfirst, hrest]
    exact ⟨rfl, hlast⟩

end Represents

/-- Whatever is asked of separate fields, they answer as a draft does. Their lists are equally long,
and the running total is the sum of the weights, none of which is negative, and stays in range. -/
theorem Builder.serve_new (name : Name) (qs : List Request) :
    let b := (serve { name := name } qs).2
    let d := (Draft.serve { name := name } qs).2
    (serve { name := name } qs).1 = (Draft.serve { name := name } qs).1 ∧ Represents d b ∧
      b.productions.length = b.weights.length ∧ b.total = b.weights.sum ∧
      (∀ w ∈ b.weights, 0 ≤ w) ∧ b.total ≤ maxWeight := by
  intro b d
  obtain ⟨hanswers, h⟩ := (Represents.new name).serve qs
  have hlogged : IsLogged name (Draft.serve { name := name } qs).1 d := (IsLogged.new name).serve qs
  refine ⟨hanswers, h, ?_, ?_, fun w hw => ?_, ?_⟩
  · rw [h.productions_eq, h.weights_eq, List.length_map, List.length_map]
  · rw [h.total_eq, h.weights_eq]
    show ((Weights.total (d.entries.map Prod.snd) : Nat) : Int) = _
    rw [Weights.total_eq_sum, Nat.cast_list_sum, List.map_map]
    rfl
  · rw [h.weights_eq] at hw
    obtain ⟨e, -, rfl⟩ := List.mem_map.1 hw
    exact Int.natCast_nonneg e.2
  · rw [h.total_eq]
    exact Int.ofNat_le.2 hlogged.total_le

end PairGrammar
