import PairGrammar.Grammar

/-!
# Reachable variables

A variable reaches those that its productions refer to, and those that these reach. The search
keeps the names reached so far and a stack of those whose productions have not been looked at;
the name pushed last is looked at first. `Leads` is the relation that the search decides.

The search ends because each name is pushed once: a push takes a name from the unreached ones to
the stack, and a pop makes the stack smaller.
-/

namespace PairGrammar.Grammar

/-- There is a chain of references from the first name to the second. -/
inductive Leads (g : Grammar) (start : Name) : Name → Prop
  | refl : Leads g start start
  | step {n m : Name} {v : Variable} : Leads g start n → g.find? n = some v → m ∈ v.mentions →
      Leads g start m

def mentions (g : Grammar) : List Name := g.vocabulary.flatMap Variable.mentions

structure Search where
  reached : List Name
  stack : List Name

namespace Search

def push (s : Search) (n : Name) : Search :=
  if n ∈ s.reached then s else ⟨n :: s.reached, n :: s.stack⟩

/-- The names that have not been reached, and those that are still to be looked at. -/
def pending (all : List Name) (s : Search) : Nat :=
  (all.filter (· ∉ s.reached)).length + s.stack.length

theorem pending_push_le {all : List Name} {s : Search} {n : Name} (h : n ∈ all) :
    (s.push n).pending all ≤ s.pending all := by
  unfold push
  split
  · exact Nat.le_refl _
  · next hn =>
    have : (all.filter (· ∉ n :: s.reached)).length <
        (all.filter (· ∉ s.reached)).length := by
      rw [show (fun m => decide (m ∉ n :: s.reached)) =
          fun m => decide (m ≠ n) && decide (m ∉ s.reached) by
        funext m; simp [not_or], ← List.filter_filter]
      exact List.length_filter_lt_length_iff_exists.2 ⟨n, by simp [h, hn], by simp⟩
    simp only [pending, List.length_cons]
    omega

theorem pending_foldl_push_le {all ns : List Name} (h : ∀ n ∈ ns, n ∈ all)
    (s : Search) : (ns.foldl push s).pending all ≤ s.pending all := by
  induction ns generalizing s with
  | nil => exact Nat.le_refl _
  | cons n ns ih =>
    exact Nat.le_trans (ih (fun m hm => h m (List.mem_cons_of_mem _ hm)) _)
      (pending_push_le (h n List.mem_cons_self))

end Search

theorem mentions_subset {g : Grammar} {n : Name} {v : Variable} (h : g.find? n = some v) :
    ∀ m ∈ v.mentions, m ∈ g.mentions :=
  fun _ hm => List.mem_flatMap.2 ⟨v, List.mem_of_find?_eq_some h, hm⟩

/-- Looks at the names on the stack until none is left, or one is the name of no variable. -/
def search (g : Grammar) : (reached stack : List Name) → Except Name (List Name)
  | reached, [] => .ok reached
  | reached, n :: rest => match _h : g.find? n with
    | none => .error n
    | some v => match _he : v.mentions.foldl Search.push ⟨reached, rest⟩ with
      | ⟨reached', stack'⟩ => search g reached' stack'
termination_by reached stack => Search.pending g.mentions ⟨reached, stack⟩
decreasing_by
  have := Search.pending_foldl_push_le (mentions_subset _h) ⟨reached, rest⟩
  rw [_he] at this
  simp only [Search.pending, List.length_cons] at this ⊢
  omega

/-- The names reached from `start`, or the name that is missing. -/
def reachable (g : Grammar) (start : Name) : Except Name (List Name) :=
  search g [start] [start]

/-- The names of the variables that are not reached. -/
def unreachable (g : Grammar) (start : Name) : Except Name (List Name) :=
  (g.reachable start).map fun reached => g.names.filter (· ∉ reached)

end PairGrammar.Grammar
