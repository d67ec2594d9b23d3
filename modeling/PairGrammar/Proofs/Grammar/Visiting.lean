import Mathlib.Logic.Relation
import PairGrammar.Proofs.Grammar.Reaching

/-!
# The search looks at each name once

`RefersTo` is the relation between names that a grammar's references make, and what the search
reaches from a name is what the reflexive and transitive closure of this relation leads to. The
names that the search looks at, one after the other, are the names that it reaches, each of them
once: at every moment those that have been looked at and those on the stack make up the names
reached so far.

* `leads_iff_reflTransGen`: chains of references as a closure.
* `Visits`: the names that a search looks at, in order; `search_eq_ok_iff` ties it to the search.
* `Visits.perm`: the names looked at are the names reached.
* `Reports`: what a report of the variables that are left out should hold.
* `reachable_closure`: what is reached in a closed grammar, and what is not.
-/

namespace PairGrammar

theorem Variable.mem_mentions_iff {v : Variable} {n : Name} :
    n ∈ v.mentions ↔ ∃ p ∈ v.productions, .reference n ∈ p.natural ∨ .reference n ∈ p.code := by
  rw [mentions, List.mem_flatMap]
  exact exists_congr fun p => and_congr_right fun _ => Production.mem_references

namespace Grammar

variable {g : Grammar} {start n m : Name}

/-- Some production of the variable `n` has a reference to `m` in one of its lines. -/
def RefersTo (g : Grammar) (n m : Name) : Prop :=
  ∃ v, g.find? n = some v ∧ ∃ p ∈ v.productions, .reference m ∈ p.natural ∨ .reference m ∈ p.code

theorem refersTo_iff : g.RefersTo n m ↔ ∃ v, g.find? n = some v ∧ m ∈ v.mentions :=
  exists_congr fun _ => and_congr_right fun _ => Variable.mem_mentions_iff.symm

theorem leads_iff_reflTransGen :
    g.Leads start n ↔ Relation.ReflTransGen g.RefersTo start n := by
  constructor
  · intro h
    induction h with
    | refl => exact .refl
    | step _ hv hm ih => exact ih.tail (refersTo_iff.2 ⟨_, hv, hm⟩)
  · intro h
    induction h with
    | refl => exact .refl
    | tail _ hnm ih =>
      obtain ⟨v, hv, hm⟩ := refersTo_iff.1 hnm
      exact .step ih hv hm

/-! ### What a search looks at -/

/-- `Visits g s ns names`: from `s` on, the search looks at the names `ns`, one after the other, and
it ends with the names `names` reached. -/
inductive Visits (g : Grammar) : Search → (ns names : List Name) → Prop
  | done (reached : List Name) : Visits g ⟨reached, []⟩ [] reached
  | look {reached rest ns names : List Name} {n : Name} {v : Variable} (hv : g.find? n = some v)
      (h : Visits g (v.mentions.foldl Search.push ⟨reached, rest⟩) ns names) :
      Visits g ⟨reached, n :: rest⟩ (n :: ns) names

/-- The search comes to an end if and only if it can look at everything that it turns to. -/
theorem search_eq_ok_iff {reached stack names : List Name} :
    g.search reached stack = .ok names ↔ ∃ ns, Visits g ⟨reached, stack⟩ ns names := by
  fun_induction search g reached stack with
  | case1 reached =>
    constructor
    · intro h
      cases h
      exact ⟨[], .done _⟩
    · rintro ⟨ns, h⟩
      cases h
      rfl
  | case2 reached n rest hn =>
    constructor
    · intro h
      cases h
    · rintro ⟨ns, h⟩
      cases h with
      | look hv _ =>
        rw [hn] at hv
        cases hv
  | case3 reached n rest v hv reached' stack' hs ih =>
    rw [ih]
    constructor
    · rintro ⟨ns, h⟩
      rw [← hs] at h
      exact ⟨n :: ns, .look hv h⟩
    · rintro ⟨ns, h⟩
      cases h with
      | look hv' h =>
        rw [hv] at hv'
        cases hv'
        rw [hs] at h
        exact ⟨_, h⟩

namespace Search

/-- A name that is pushed is reached and put on the stack, or it is left alone. -/
theorem perm_push {s : Search} {seen : List Name} (h : (seen ++ s.stack).Perm s.reached)
    (n : Name) : (seen ++ (s.push n).stack).Perm (s.push n).reached := by
  unfold push
  split
  · exact h
  · exact List.perm_middle.trans (h.cons n)

theorem perm_foldl {s : Search} {seen : List Name} (h : (seen ++ s.stack).Perm s.reached)
    (ns : List Name) : (seen ++ (ns.foldl push s).stack).Perm (ns.foldl push s).reached := by
  induction ns generalizing s with
  | nil => exact h
  | cons n ns ih => exact ih (perm_push h n)

end Search

namespace Visits

variable {s : Search} {ns names : List Name}

/-- If the names seen before and those on the stack are the names reached so far, then at the end
the names seen before and those looked at since are the names reached. -/
theorem perm (h : Visits g s ns names) {seen : List Name}
    (hseen : (seen ++ s.stack).Perm s.reached) : (seen ++ ns).Perm names := by
  induction h generalizing seen with
  | done reached => exact hseen
  | @look reached rest ns names n v hv h ih =>
    have hpop : (n :: seen ++ rest).Perm reached := List.perm_middle.symm.trans hseen
    have hrest : (n :: seen ++ ns).Perm names :=
      ih (Search.perm_foldl (s := ⟨reached, rest⟩) hpop _)
    exact List.perm_middle.trans hrest

theorem isSome_find? (h : Visits g s ns names) : ∀ n ∈ ns, (g.find? n).isSome := by
  induction h with
  | done reached =>
    intro n hn
    cases hn
  | look hv _ ih =>
    refine List.forall_mem_cons.2 ⟨?_, ih⟩
    rw [hv]
    rfl

end Visits

/-! ### Closed grammars -/

/-- What is reported are the variables to which no references lead from `start`. -/
def Reports (g : Grammar) (start : Name) (report : Except Name (List Name)) : Prop :=
  ∃ rest, report = .ok rest ∧
    ∀ n, n ∈ rest ↔ n ∈ g.names ∧ ¬ Relation.ReflTransGen g.RefersTo start n

theorem reports_unreachable (hg : g.IsClosed) (hs : (g.find? start).isSome) :
    g.Reports start (g.unreachable start) := by
  obtain ⟨names, hnames, -, hmem⟩ := exists_reachable hg hs
  rw [unreachable, hnames]
  refine ⟨_, rfl, fun n => ?_⟩
  rw [List.mem_filter, decide_eq_true_eq, hmem, leads_iff_reflTransGen]

/-- In a closed grammar the search from a variable comes to its end. It looks at variables only, at
each of them once, and these are the names to which references lead from the start; what is left out
are all other variables. -/
theorem reachable_closure (hg : g.IsClosed) (hs : (g.find? start).isSome) :
    ∃ names ns rest, g.reachable start = .ok names ∧ Visits g ⟨[start], [start]⟩ ns names ∧
      ns.Nodup ∧ ns.Perm names ∧ (∀ n ∈ ns, (g.find? n).isSome) ∧
      (∀ n, n ∈ names ↔ Relation.ReflTransGen g.RefersTo start n) ∧
      g.unreachable start = .ok rest ∧
      ∀ n, n ∈ rest ↔ n ∈ g.names ∧ ¬ Relation.ReflTransGen g.RefersTo start n := by
  obtain ⟨names, hnames, hnodup, hmem⟩ := exists_reachable hg hs
  obtain ⟨rest, hrest, hleft⟩ := reports_unreachable hg hs
  obtain ⟨ns, hvisits⟩ := search_eq_ok_iff.1 hnames
  have hfirst : ([] ++ [start]).Perm [start] := .refl _
  have hperm : ns.Perm names := hvisits.perm hfirst
  exact ⟨names, ns, rest, hnames, hvisits, hperm.nodup_iff.2 hnodup, hperm, hvisits.isSome_find?,
    fun n => (hmem n).trans leads_iff_reflTransGen, hrest, hleft⟩

/-- References lead around from `a` to `b` and back, from `b` to itself and to `c`, and from `d`
into this circle. -/
def circle : Grammar where
  vocabulary := [
    ⟨['a'], [(⟨[.reference ['b'], .literal [' '], .reference ['b']], []⟩, 1)],
      List.cons_ne_nil _ _⟩,
    ⟨['b'], [(⟨[.reference ['a']], [.reference ['b']]⟩, 0), (⟨[], [.reference ['c']]⟩, 2)],
      List.cons_ne_nil _ _⟩,
    ⟨['c'], [(⟨[.literal ['x']], [.literal ['y']]⟩, 1)], List.cons_ne_nil _ _⟩,
    ⟨['d'], [(⟨[.reference ['a']], [.reference ['c']]⟩, 1)], List.cons_ne_nil _ _⟩]
  root := ['a']
  root_mem := ⟨_, List.mem_cons_self, rfl⟩

theorem reachable_closure_circle :
    circle.IsClosed ∧ (circle.find? ['a']).isSome ∧
      circle.reachable ['a'] = .ok [['c'], ['b'], ['a']] ∧
      (∃ ns, Visits circle ⟨[['a']], [['a']]⟩ ns [['c'], ['b'], ['a']] ∧ ns.Nodup ∧
        ns.Perm [['c'], ['b'], ['a']]) ∧
      Relation.ReflTransGen circle.RefersTo ['a'] ['c'] ∧
      circle.unreachable ['a'] = .ok [['d']] ∧
      ¬ Relation.ReflTransGen circle.RefersTo ['a'] ['d'] := by
  have hclosed : circle.IsClosed := isClosed_of_vocabulary (by decide)
  have hsome : (circle.find? ['a']).isSome := by decide
  have hreachable : circle.reachable ['a'] = .ok [['c'], ['b'], ['a']] := by
    with_unfolding_all rfl
  have hunreachable : circle.unreachable ['a'] = .ok [['d']] := by
    with_unfolding_all rfl
  obtain ⟨names, ns, rest, hnames, hvisits, hnodup, hperm, -, hclosure, hrest, hleft⟩ :=
    reachable_closure hclosed hsome
  rw [hreachable] at hnames
  cases hnames
  rw [hunreachable] at hrest
  cases hrest
  exact ⟨hclosed, hsome, hreachable, ⟨ns, hvisits, hnodup, hperm⟩, (hclosure _).1 (by simp),
    hunreachable, ((hleft _).1 (by simp)).2⟩

end Grammar

end PairGrammar
