import Mathlib.Data.List.Nodup
import PairGrammar.Grammar.Reachable
import PairGrammar.Proofs.Grammar.Closed

/-!
# The search reaches what references lead to

At every moment of the search, a name that has been reached is still on the stack, or it has been
looked at: then it is the name of a variable, and all that the variable mentions has been reached.
Where the stack is empty the reached names are therefore closed under references, so none is left
out; and none is there but those to which references lead.

* `Explores.look`: looking at the name on top of the stack keeps this.
* `search_cases`: the search comes to such an end, or upon a name without a variable.
* `exists_reachable`: in a closed grammar it reaches the names to which references lead, each once.
-/

namespace PairGrammar.Grammar

namespace Search

theorem mem_reached_push {s : Search} {n m : Name} :
    m ∈ (s.push n).reached ↔ m = n ∨ m ∈ s.reached := by
  unfold push
  split
  · next hn =>
    constructor
    · exact .inr
    · rintro (rfl | hm)
      · exact hn
      · exact hm
  · exact List.mem_cons

theorem mem_stack_push {s : Search} {n m : Name} :
    m ∈ (s.push n).stack ↔ m ∈ s.stack ∨ m = n ∧ m ∉ s.reached := by
  unfold push
  split
  · next hn =>
    constructor
    · exact .inl
    · rintro (hm | ⟨rfl, hm⟩)
      · exact hm
      · exact absurd hn hm
  · next hn =>
    rw [List.mem_cons, or_comm]
    refine or_congr_right ⟨?_, And.left⟩
    rintro rfl
    exact ⟨rfl, hn⟩

theorem nodup_push {s : Search} (h : s.reached.Nodup) (n : Name) : (s.push n).reached.Nodup := by
  unfold push
  split
  · exact h
  · next hn => exact List.nodup_cons.2 ⟨hn, h⟩

theorem mem_reached_foldl {s : Search} {ns : List Name} {m : Name} :
    m ∈ (ns.foldl push s).reached ↔ m ∈ ns ∨ m ∈ s.reached := by
  induction ns generalizing s with
  | nil => simp
  | cons n ns ih => rw [List.foldl_cons, ih, mem_reached_push, List.mem_cons, or_left_comm, or_assoc]

theorem mem_stack_foldl {s : Search} {ns : List Name} {m : Name} :
    m ∈ (ns.foldl push s).stack ↔ m ∈ s.stack ∨ m ∈ ns ∧ m ∉ s.reached := by
  induction ns generalizing s with
  | nil => simp
  | cons n ns ih =>
    rw [List.foldl_cons, ih, mem_stack_push, mem_reached_push, List.mem_cons]
    by_cases hn : m = n <;> by_cases hr : m ∈ s.reached <;> simp [hn, hr]

theorem nodup_foldl {s : Search} (h : s.reached.Nodup) (ns : List Name) :
    (ns.foldl push s).reached.Nodup := by
  induction ns generalizing s with
  | nil => exact h
  | cons n ns ih => exact ih (nodup_push h n)

end Search

/-- The name is that of a variable, and all that the variable mentions has been reached. -/
def IsLookedAt (g : Grammar) (reached : List Name) (n : Name) : Prop :=
  ∃ v, g.find? n = some v ∧ ∀ m ∈ v.mentions, m ∈ reached

/-- What is known at every moment of a search that has been started at a name. -/
structure Explores (g : Grammar) (start : Name) (s : Search) : Prop where
  nodup : s.reached.Nodup
  start_mem : start ∈ s.reached
  leads : ∀ n ∈ s.reached, g.Leads start n
  reached : ∀ n ∈ s.stack, n ∈ s.reached
  lookedAt : ∀ n ∈ s.reached, n ∈ s.stack ∨ g.IsLookedAt s.reached n

namespace Explores

variable {g : Grammar} {start : Name}

theorem init (g : Grammar) (start : Name) : Explores g start ⟨[start], [start]⟩ where
  nodup := List.nodup_singleton start
  start_mem := List.mem_singleton_self start
  leads := fun n hn => by
    rw [List.mem_singleton.1 hn]
    exact .refl
  reached := fun _ hn => hn
  lookedAt := fun _ hn => .inl hn

/-- One more name has been looked at, and what its variable mentions has been pushed. -/
theorem look {reached rest : List Name} {n : Name} {v : Variable}
    (h : Explores g start ⟨reached, n :: rest⟩) (hv : g.find? n = some v) :
    Explores g start (v.mentions.foldl Search.push ⟨reached, rest⟩) where
  nodup := Search.nodup_foldl (s := ⟨reached, rest⟩) h.nodup v.mentions
  start_mem := Search.mem_reached_foldl.2 (.inr h.start_mem)
  leads := by
    have hn : g.Leads start n := h.leads n (h.reached n List.mem_cons_self)
    intro m hm
    rcases Search.mem_reached_foldl.1 hm with hm | hm
    · exact .step hn hv hm
    · exact h.leads m hm
  reached := by
    intro m hm
    apply Search.mem_reached_foldl.2
    rcases Search.mem_stack_foldl.1 hm with hm | ⟨hm, -⟩
    · exact .inr (h.reached m (List.mem_cons_of_mem _ hm))
    · exact .inl hm
  lookedAt := by
    intro m hm
    by_cases hr : m ∈ reached
    · rcases h.lookedAt m hr with hs | ⟨w, hw, hmentions⟩
      · rcases List.mem_cons.1 hs with rfl | hs
        · -- the name that has just been looked at
          exact .inr ⟨v, hv, fun k hk => Search.mem_reached_foldl.2 (.inl hk)⟩
        · exact .inl (Search.mem_stack_foldl.2 (.inl hs))
      · exact .inr ⟨w, hw, fun k hk => Search.mem_reached_foldl.2 (.inr (hmentions k hk))⟩
    · have hmentions : m ∈ v.mentions := by
        rcases Search.mem_reached_foldl.1 hm with hm | hm
        · exact hm
        · exact absurd hm hr
      exact .inl (Search.mem_stack_foldl.2 (.inr ⟨hmentions, hr⟩))

/-- With nothing left to look at, the reached names are those to which references lead. -/
theorem mem_iff_leads {names : List Name} (h : Explores g start ⟨names, []⟩) {n : Name} :
    n ∈ names ↔ g.Leads start n := by
  refine ⟨h.leads n, fun hn => ?_⟩
  induction hn with
  | refl => exact h.start_mem
  | @step n m v _ hv hm ih =>
    rcases h.lookedAt n ih with hs | ⟨w, hw, hmentions⟩
    · cases hs
    · rw [hv] at hw
      cases hw
      exact hmentions m hm

end Explores

/-- A search ends with nothing left to look at, or at a name without a variable. -/
theorem search_cases {g : Grammar} {start : Name} {reached stack : List Name}
    (h : Explores g start ⟨reached, stack⟩) :
    (∃ names, g.search reached stack = .ok names ∧ Explores g start ⟨names, []⟩) ∨
      ∃ n, g.search reached stack = .error n ∧ g.Leads start n ∧ g.find? n = none := by
  fun_induction search g reached stack with
  | case1 reached => exact .inl ⟨reached, rfl, h⟩
  | case2 reached n rest hn =>
    exact .inr ⟨n, rfl, h.leads n (h.reached n List.mem_cons_self), hn⟩
  | case3 reached n rest v hv reached' stack' hs ih =>
    have hlook := h.look hv
    rw [hs] at hlook
    exact ih hlook

/-- In a closed grammar references lead from a variable to variables only. -/
theorem Leads.isSome_find? {g : Grammar} (hg : g.IsClosed) {start n : Name}
    (hs : (g.find? start).isSome) (h : g.Leads start n) : (g.find? n).isSome := by
  cases h with
  | refl => exact hs
  | step _ hv hm => exact hg _ _ hv _ hm

/-- In a closed grammar the search finds the names to which references lead, each of them once. -/
theorem exists_reachable {g : Grammar} (hg : g.IsClosed) {start : Name}
    (hs : (g.find? start).isSome) :
    ∃ names, g.reachable start = .ok names ∧ names.Nodup ∧ ∀ n, n ∈ names ↔ g.Leads start n := by
  rcases search_cases (Explores.init g start) with ⟨names, hnames, h⟩ | ⟨n, -, hlead, hn⟩
  · exact ⟨names, hnames, h.nodup, fun n => h.mem_iff_leads⟩
  · have hsome : (g.find? n).isSome := hlead.isSome_find? hg hs
    rw [hn] at hsome
    cases hsome

end PairGrammar.Grammar
