import PairGrammar.Files.Rules
import PairGrammar.Generator
import PairGrammar.Proofs.Evaluation.Loaded

/-!
# Generators and their iterators

A generator answers requests, hands out iterators, each for a number of answers or for answers
without end, and takes new limits; all this in any order, with any number of iterators at work. What
comes of it is one stream: the root is evaluated again and again, from level zero and with the limit
of the moment, and nothing but the dice goes from one evaluation to the next.

* `Generator.results_concat`: one request more.
* `Service.Keeps`: what holds of a generator and its iterators behind a history, with a lemma for
  each kind of request.
* `served_history`: all answers to a history.
-/

namespace PairGrammar

/-- What has been asked of a generator, the latest request last. So far `k` iterators have been
handed out, and these are the ones that can be advanced. -/
inductive History : (k : Nat) → Type
  | start : History 0
  | next {k : Nat} (h : History k) : History k
  | setLimit {k : Nat} (h : History k) (limit : Int) : History k
  | generate {k : Nat} (h : History k) (count : Int) : History (k + 1)
  | advance {k : Nat} (h : History k) (i : Fin k) : History k

namespace History

/-- The limit in force behind a history. -/
def limit (first : Int) {k : Nat} : History k → Int
  | start => first
  | next h => h.limit first
  | setLimit _ limit => limit
  | generate h _ => h.limit first
  | advance h _ => h.limit first

/-- The numbers that the iterators were asked for with. -/
def counts {k : Nat} : History k → Vector Int k
  | start => #v[]
  | next h => h.counts
  | setLimit h _ => h.counts
  | generate h count => h.counts.push count
  | advance h _ => h.counts

/-- How often the iterators have been advanced. -/
def advances {k : Nat} : History k → Vector Nat k
  | start => #v[]
  | next h => h.advances
  | setLimit h _ => h.advances
  | generate h _ => h.advances.push 0
  | advance h i => h.advances.set i (h.advances[i] + 1)

/-- Whether an iterator still has an answer: it has no end, or it has been advanced less often than
its number says. -/
def IsGoing {k : Nat} (h : History k) (i : Fin k) : Prop :=
  h.counts[i] ≤ 0 ∨ (h.advances[i] : Int) < h.counts[i]

instance {k : Nat} (h : History k) (i : Fin k) : Decidable (h.IsGoing i) :=
  inferInstanceAs (Decidable (_ ∨ _))

/-- How many answers an iterator has to give: one each time it is advanced, up to its number. -/
def due {k : Nat} (h : History k) (i : Fin k) : Nat :=
  if h.counts[i] ≤ 0 then h.advances[i] else min h.advances[i] h.counts[i].toNat

/-- The limits in force at the requests that are answered. -/
def limits (first : Int) {k : Nat} : History k → List Int
  | start => []
  | next h => h.limits first ++ [h.limit first]
  | setLimit h _ => h.limits first
  | generate h _ => h.limits first
  | advance h i => if h.IsGoing i then h.limits first ++ [h.limit first] else h.limits first

section

variable {k : Nat} (h : History k) {i j : Fin k}

theorem advances_advance_self : (h.advance i).advances[i] = h.advances[i] + 1 :=
  Vector.getElem_set_self i.isLt

theorem advances_advance_of_ne (hij : i ≠ j) : (h.advance i).advances[j] = h.advances[j] :=
  Vector.getElem_set_ne i.isLt j.isLt (Fin.val_ne_of_ne hij)

theorem due_advance_of_isGoing (hgo : h.IsGoing i) : (h.advance i).due i = h.due i + 1 := by
  have hgoing : h.counts[i] ≤ 0 ∨ (h.advances[i] : Int) < h.counts[i] := hgo
  rw [due, due, advances_advance_self, counts]
  split <;> omega

theorem due_advance_of_not_isGoing (hgo : ¬ h.IsGoing i) : (h.advance i).due i = h.due i := by
  have hgoing : ¬ (h.counts[i] ≤ 0 ∨ (h.advances[i] : Int) < h.counts[i]) := hgo
  rw [due, due, advances_advance_self, counts]
  split <;> omega

theorem due_advance_of_ne (hij : i ≠ j) : (h.advance i).due j = h.due j := by
  rw [due, due, advances_advance_of_ne h hij, counts]

end

end History

/-- A generator and the iterators that it has handed out, with the answers so far. An answer to an
iterator comes with the position of the iterator. -/
structure Service (ρ : Type) (k : Nat) where
  generator : Generator ρ
  quotas : Vector Quota k
  answers : List (Option Nat × Generated)

variable {ρ : Type} [Dice ρ]

namespace Service

variable {k : Nat}

def next (s : Service ρ k) : Service ρ k where
  generator := s.generator.next.2
  quotas := s.quotas
  answers := s.answers ++ [(none, s.generator.next.1)]

omit [Dice ρ] in
def setLimit (s : Service ρ k) (limit : Int) : Service ρ k :=
  { s with generator := s.generator.setLimit limit }

def generate (s : Service ρ k) (count : Int) : Service ρ (k + 1) :=
  { s with quotas := s.quotas.push (.ofInt count) }

def advance (s : Service ρ k) (i : Fin k) : Service ρ k :=
  match s.generator.advance s.quotas[i] with
  | none => s
  | some (r, quota, generator) =>
    ⟨generator, s.quotas.set i quota, s.answers ++ [(some i.val, r)]⟩

end Service

/-- A generator and its iterators behind a history. -/
def History.serve (g : Generator ρ) {k : Nat} : History k → Service ρ k
  | start => ⟨g, #v[], []⟩
  | next h => (h.serve g).next
  | setLimit h limit => (h.serve g).setLimit limit
  | generate h count => (h.serve g).generate count
  | advance h i => (h.serve g).advance i

/-! ### One stream of evaluations -/

/-- The outcomes of evaluating the root again and again, each time from level zero and with a limit
of its own, and the dice behind them. -/
def Grammar.evaluations (g : Grammar) : (limits : List Int) → ρ → List Outcome × ρ
  | [], r => ([], r)
  | l :: ls, r =>
    let e := g.evaluate g.root { limit := l } r
    match g.evaluations ls e.dice with
    | (os, r') => (e.outcome :: os, r')

theorem Grammar.evaluations_concat (g : Grammar) (ls : List Int) (l : Int) (r : ρ) :
    g.evaluations (ls ++ [l]) r =
      ((g.evaluations ls r).1 ++
          [(g.evaluate g.root { limit := l } (g.evaluations ls r).2).outcome],
        (g.evaluate g.root { limit := l } (g.evaluations ls r).2).dice) := by
  induction ls generalizing r with
  | nil => rfl
  | cons l' ls ih =>
    rw [List.cons_append, evaluations, ih]
    rfl

namespace Generator

/-- What a generator answers to requests at which the given limits are in force, and the dice that
it is left with. -/
def results (g : Generator ρ) (limits : List Int) : List Generated × ρ :=
  match g.grammar with
  | none => (List.replicate limits.length .notLoaded, g.dice)
  | some grammar =>
    ((grammar.evaluations limits g.dice).1.map .evaluated, (grammar.evaluations limits g.dice).2)

theorem results_nil (g : Generator ρ) : g.results [] = ([], g.dice) := by
  unfold results
  cases g.grammar <;> rfl

theorem next_snd (g : Generator ρ) : g.next.2 = { g with dice := g.next.2.dice } := by
  obtain ⟨grammar, loadError, dice, limit⟩ := g
  cases grammar <;> rfl

/-- One request more is answered with the limit of the moment and the dice that are left. -/
theorem results_concat (g : Generator ρ) (ls : List Int) (l : Int) :
    g.results (ls ++ [l]) =
      ((g.results ls).1 ++ [(next { g with dice := (g.results ls).2, limit := l }).1],
        (next { g with dice := (g.results ls).2, limit := l }).2.dice) := by
  obtain ⟨grammar, loadError, dice, limit⟩ := g
  cases grammar with
  | none =>
    simp only [results, next, List.length_append, List.length_singleton, List.replicate_succ']
  | some grammar =>
    simp only [results, next, Grammar.evaluations_concat, List.map_append, List.map_cons,
      List.map_nil]

end Generator

/-! ### What is left of an iterator -/

namespace Quota

/-- The quota of an iterator that was asked for with `count` and has been advanced a number of
times. -/
def remaining (count : Int) (advances : Nat) : Quota :=
  if count ≤ 0 then endless else left (count.toNat - advances)

theorem remaining_zero (count : Int) : remaining count 0 = ofInt count := rfl

theorem use?_remaining (count : Int) (advances : Nat) :
    (remaining count advances).use? =
      if count ≤ 0 ∨ (advances : Int) < count then some (remaining count (advances + 1))
      else none := by
  by_cases hend : count ≤ 0
  · simp only [remaining, hend, true_or, if_true]
    rfl
  · by_cases hlt : (advances : Int) < count
    · have hleft : count.toNat - advances = (count.toNat - (advances + 1)) + 1 := by omega
      simp only [remaining, hend, hlt, or_true, if_true, if_false, hleft]
      rfl
    · have hleft : count.toNat - advances = 0 := by omega
      simp only [remaining, hend, hlt, or_false, if_false, hleft]
      rfl

theorem remaining_succ {count : Int} {advances : Nat}
    (h : ¬ (count ≤ 0 ∨ (advances : Int) < count)) :
    remaining count (advances + 1) = remaining count advances := by
  have hend : ¬ count ≤ 0 := fun hc => h (.inl hc)
  have hleft : count.toNat - (advances + 1) = count.toNat - advances := by omega
  simp only [remaining, hend, if_false, hleft]

end Quota

/-! ### What holds behind a history -/

/-- The numbers of answers that an iterator has given. -/
def Service.yielded {k : Nat} (s : Service ρ k) (i : Nat) : Nat :=
  (s.answers.map Prod.fst).count (some i)

section

omit [Dice ρ]

variable {k : Nat} {s t : Service ρ k} {source : Option Nat} {r : Generated}

theorem Service.yielded_of_concat (h : t.answers = s.answers ++ [(source, r)]) (i : Nat) :
    t.yielded i = s.yielded i + if source = some i then 1 else 0 := by
  rw [yielded, yielded, h, List.map_append, List.count_append]
  by_cases hi : source = some i
  · rw [hi, if_pos rfl]
    exact congrArg (_ + ·) List.count_singleton_self
  · have hnone : List.count (some i) [source] = 0 :=
      List.count_eq_zero.2 fun hm => hi (List.mem_singleton.1 hm).symm
    rw [if_neg hi]
    exact congrArg (_ + ·) hnone

theorem Service.source_of_concat (h : t.answers = s.answers ++ [(source, r)]) {j : Nat}
    (hj : some j ∈ t.answers.map Prod.fst) :
    some j ∈ s.answers.map Prod.fst ∨ source = some j := by
  rw [h, List.map_append] at hj
  exact (List.mem_append.1 hj).imp_right fun hm => (List.mem_singleton.1 hm).symm

end

/-- What holds of a generator that has been `g`, and of its iterators, behind a history. -/
structure Service.Keeps (g : Generator ρ) {k : Nat} (h : History k) (s : Service ρ k) : Prop where
  generator : s.generator =
    { g with dice := (g.results (h.limits g.limit)).2, limit := h.limit g.limit }
  results : s.answers.map Prod.snd = (g.results (h.limits g.limit)).1
  quotas : ∀ i : Fin k, s.quotas[i] = .remaining h.counts[i] h.advances[i]
  yields : ∀ i : Fin k, s.yielded i = h.due i
  sources : ∀ j, some j ∈ s.answers.map Prod.fst → j < k

namespace Service.Keeps

variable {g : Generator ρ} {k : Nat} {h : History k} {s : Service ρ k}

/-- The generator answers one request more. -/
theorem answered (hs : Keeps g h s) (ls : List Int)
    (hls : ls = h.limits g.limit ++ [h.limit g.limit]) (source : Option Nat) :
    s.generator.next.2 = { g with dice := (g.results ls).2, limit := h.limit g.limit } ∧
      (s.answers ++ [(source, s.generator.next.1)]).map Prod.snd = (g.results ls).1 := by
  rw [hls, Generator.results_concat, List.map_append, hs.results, Generator.next_snd, hs.generator]
  exact ⟨rfl, rfl⟩

theorem start : Keeps g .start ⟨g, #v[], []⟩ where
  generator := by
    rw [History.limits, Generator.results_nil]
    rfl
  results := by
    rw [History.limits, Generator.results_nil]
    rfl
  quotas i := i.elim0
  yields i := i.elim0
  sources j hj := by cases hj

theorem next (hs : Keeps g h s) : Keeps g h.next s.next where
  generator := (hs.answered _ rfl none).1
  results := (hs.answered _ rfl none).2
  quotas := hs.quotas
  yields i := by
    rw [yielded_of_concat (s := s) rfl, if_neg nofun]
    exact hs.yields i
  sources j hj := by
    rcases source_of_concat rfl hj with hj | hj
    · exact hs.sources j hj
    · cases hj

theorem setLimit (hs : Keeps g h s) (limit : Int) :
    Keeps g (h.setLimit limit) (s.setLimit limit) where
  generator := by
    rw [Service.setLimit, Generator.setLimit, hs.generator]
    rfl
  results := hs.results
  quotas := hs.quotas
  yields := hs.yields
  sources := hs.sources

theorem generate (hs : Keeps g h s) (count : Int) :
    Keeps g (h.generate count) (s.generate count) where
  generator := hs.generator
  results := hs.results
  quotas i := by
    simp only [Service.generate, History.counts, History.advances, Fin.getElem_fin,
      Vector.getElem_push]
    split
    · next hi => exact hs.quotas ⟨i, hi⟩
    · exact (Quota.remaining_zero count).symm
  yields i := by
    simp only [History.due, History.counts, History.advances, Fin.getElem_fin, Vector.getElem_push]
    split
    · next hi => exact hs.yields ⟨i, hi⟩
    · next hi =>
      -- no answer has come from an iterator that is handed out only now
      have hnone : s.yielded i = 0 := List.count_eq_zero.2 fun hm => hi (hs.sources i hm)
      show s.yielded i = _
      rw [hnone]
      simp
  sources j hj := Nat.lt_succ_of_lt (hs.sources j hj)

/-- An iterator that has an answer left gives the next one of the generator. -/
theorem advance_of_isGoing (hs : Keeps g h s) {i : Fin k} (hgo : h.IsGoing i) :
    Keeps g (h.advance i) (s.advance i) := by
  have hgoing : h.counts[i] ≤ 0 ∨ (h.advances[i] : Int) < h.counts[i] := hgo
  have huse : s.quotas[i].use? = some (.remaining h.counts[i] (h.advances[i] + 1)) := by
    rw [hs.quotas i, Quota.use?_remaining, if_pos hgoing]
  have hadvance : s.generator.advance s.quotas[i] = some (s.generator.next.1,
      .remaining h.counts[i] (h.advances[i] + 1), s.generator.next.2) := by
    rw [Generator.advance, huse]
    rfl
  have hlimits : (h.advance i).limits g.limit = h.limits g.limit ++ [h.limit g.limit] := by
    rw [History.limits, if_pos hgo]
  obtain ⟨hgenerator, hresults⟩ := hs.answered _ hlimits (some i.val)
  rw [Service.advance, hadvance]
  refine ⟨hgenerator, hresults, fun j => ?_, fun j => ?_, fun j hj => ?_⟩
  · by_cases hij : i = j
    · subst hij
      rw [h.advances_advance_self]
      exact Vector.getElem_set_self i.isLt
    · rw [h.advances_advance_of_ne hij]
      exact (Vector.getElem_set_ne i.isLt j.isLt (Fin.val_ne_of_ne hij)).trans (hs.quotas j)
  · rw [yielded_of_concat (s := s) rfl, hs.yields j]
    by_cases hij : i = j
    · subst hij
      rw [h.due_advance_of_isGoing hgo, if_pos rfl]
    · have hne : some i.val ≠ some j.val := fun he => hij (Fin.ext (Option.some.inj he))
      rw [h.due_advance_of_ne hij, if_neg hne, Nat.add_zero]
  · rcases source_of_concat rfl hj with hj | hj
    · exact hs.sources j hj
    · cases hj
      exact i.isLt

/-- An iterator that has come to its end gives nothing any more. -/
theorem advance_of_not_isGoing (hs : Keeps g h s) {i : Fin k} (hgo : ¬ h.IsGoing i) :
    Keeps g (h.advance i) (s.advance i) := by
  have hgoing : ¬ (h.counts[i] ≤ 0 ∨ (h.advances[i] : Int) < h.counts[i]) := hgo
  have huse : s.quotas[i].use? = none := by
    rw [hs.quotas i, Quota.use?_remaining, if_neg hgoing]
  have hadvance : s.generator.advance s.quotas[i] = none := by
    rw [Generator.advance, huse]
    rfl
  have hlimits : (h.advance i).limits g.limit = h.limits g.limit := by
    rw [History.limits, if_neg hgo]
  rw [Service.advance, hadvance]
  refine ⟨?_, ?_, fun j => ?_, fun j => ?_, hs.sources⟩
  · rw [hlimits]
    exact hs.generator
  · rw [hlimits]
    exact hs.results
  · by_cases hij : i = j
    · subst hij
      rw [h.advances_advance_self]
      exact (hs.quotas i).trans (Quota.remaining_succ hgoing).symm
    · rw [h.advances_advance_of_ne hij]
      exact hs.quotas j
  · by_cases hij : i = j
    · subst hij
      rw [h.due_advance_of_not_isGoing hgo]
      exact hs.yields i
    · rw [h.due_advance_of_ne hij]
      exact hs.yields j

theorem advance (hs : Keeps g h s) (i : Fin k) : Keeps g (h.advance i) (s.advance i) := by
  by_cases hgo : h.IsGoing i
  · exact hs.advance_of_isGoing hgo
  · exact hs.advance_of_not_isGoing hgo

end Service.Keeps

/-- Whatever has been asked of a generator, what holds at the start is kept. -/
theorem History.keeps_serve (g : Generator ρ) {k : Nat} (h : History k) :
    Service.Keeps g h (h.serve g) := by
  induction h with
  | start => exact .start
  | next h ih => exact ih.next
  | setLimit h limit ih => exact ih.setLimit limit
  | generate h count ih => exact ih.generate count
  | advance h i ih => exact ih.advance i

/-! ### Generators that have been made -/

theorem FileTree.exists_loadRules {t : FileTree} {folder : String} {root : Name}
    {grammar : Grammar} (h : (t.loadRules folder root).1 = .ok grammar) :
    ∃ ss, PairGrammar.loadRules ss root = .ok grammar := by
  unfold FileTree.loadRules at h
  split at h
  · cases h
  · exact ⟨_, h⟩

/-- What generators are made for: what loading the rule files of a folder comes to, or a grammar
that has been loaded. -/
inductive Generator.IsSource : Except Failure Grammar → Prop
  | ofFolder (t : FileTree) (folder : String) : IsSource (t.loadRules folder).1
  | ofGrammar {ss : List Source} {root : Name} {grammar : Grammar} :
      loadRules ss root = .ok grammar → IsSource (.ok grammar)

theorem Generator.IsSource.isClosed {loaded : Except Failure Grammar} (h : IsSource loaded)
    {grammar : Grammar} (hgrammar : loaded = .ok grammar) : grammar.IsClosed := by
  cases h with
  | ofGrammar hload =>
    cases hgrammar
    exact isClosed_of_loadRules hload
  | ofFolder t folder =>
    obtain ⟨ss, hss⟩ := FileTree.exists_loadRules hgrammar
    exact isClosed_of_loadRules hss

section

omit [Dice ρ]

variable {loaded : Except Failure Grammar} {dice : ρ} {limit : Int} {g : Generator ρ}

theorem Generator.limit_of_ofLoaded (h : ofLoaded loaded dice limit = .ok g) : g.limit = limit := by
  unfold ofLoaded at h
  split at h
  · cases h
    rfl
  · cases h
    rfl
  · cases h

/-- A generator that has been made has a grammar or a load error, and not both. -/
theorem Generator.isLoaded_iff (h : ofLoaded loaded dice limit = .ok g) :
    g.isLoaded ↔ g.loadError = none := by
  unfold ofLoaded at h
  split at h
  · cases h
    exact iff_of_true rfl rfl
  · cases h
    exact iff_of_false nofun nofun
  · cases h

end

/-- The end that evaluations come to which are made with a limit. -/
def Outcome.EndsWithin (limit : Int) (o : Outcome) : Prop :=
  (∃ value, o = .pair value) ∨ ∃ n, o = .limitReached limit n

theorem Grammar.endsWithin_evaluations {g : Grammar} (hg : g.IsClosed) (ls : List Int) (r : ρ) :
    List.Forall₂ Outcome.EndsWithin ls (g.evaluations ls r).1 := by
  induction ls generalizing r with
  | nil => exact .nil
  | cons l ls ih => exact .cons (outcome_of_isClosed hg g.isSome_find?_root _ r) (ih _)

/-- The answers to a history of requests. A generator for a grammar has it and no load error, and
answers with the outcomes of evaluating the root again and again, with the limits in force at the
requests; each is a pair or that limit, and nothing but the dice goes from one to the next. If
loading has failed with a load error, the generator has the error and no grammar, answers that it
has none, and rolls no dice. Whatever is asked of it, the generator keeps what it has, one of the
two. An iterator that was asked for with a positive number gives that many answers and then ends,
any other one gives an answer whenever it is advanced. -/
theorem served_history {loaded : Except Failure Grammar} (hloaded : Generator.IsSource loaded)
    (dice : ρ) (limit : Int) {k : Nat} (h : History k) :
    (∀ grammar, loaded = .ok grammar →
      let g := Generator.ofGrammar grammar dice limit
      let evaluations := grammar.evaluations (h.limits limit) dice
      Generator.ofLoaded loaded dice limit = .ok g ∧
        (h.serve g).generator.grammar = some grammar ∧ (h.serve g).generator.loadError = none ∧
        (h.serve g).answers.map Prod.snd = evaluations.1.map .evaluated ∧
        (h.serve g).generator.dice = evaluations.2 ∧
        List.Forall₂ Outcome.EndsWithin (h.limits limit) evaluations.1) ∧
    (∀ e, loaded = .error (.load e) →
      ∃ g, Generator.ofLoaded loaded dice limit = .ok g ∧
        (h.serve g).generator.grammar = none ∧ (h.serve g).generator.loadError = some e ∧
        (h.serve g).answers.map Prod.snd =
          List.replicate (h.limits limit).length .notLoaded ∧
        (h.serve g).generator.dice = dice) ∧
    ∀ g, Generator.ofLoaded loaded dice limit = .ok g →
      (h.serve g).generator.grammar = g.grammar ∧
        (h.serve g).generator.loadError = g.loadError ∧
        ((h.serve g).generator.isLoaded ↔ (h.serve g).generator.loadError = none) ∧
        (h.serve g).generator.limit = h.limit limit ∧
        ∀ i : Fin k, (h.serve g).yielded i =
          if h.counts[i] ≤ 0 then h.advances[i] else min h.advances[i] h.counts[i].toNat := by
  refine ⟨?_, ?_, fun g hg => ?_⟩
  · rintro grammar rfl g evaluations
    have hs := h.keeps_serve g
    refine ⟨rfl, ?_, ?_, hs.results, ?_, Grammar.endsWithin_evaluations (hloaded.isClosed rfl) _ _⟩
    · rw [hs.generator]
      rfl
    · rw [hs.generator]
      rfl
    · rw [hs.generator]
      rfl
  · rintro e rfl
    have hs := h.keeps_serve (⟨none, some e, dice, limit⟩ : Generator ρ)
    refine ⟨_, rfl, ?_, ?_, hs.results, ?_⟩
    · rw [hs.generator]
    · rw [hs.generator]
    · rw [hs.generator]
      rfl
  · have hs := h.keeps_serve g
    have hlimit : g.limit = limit := Generator.limit_of_ofLoaded hg
    have hone : g.isLoaded ↔ g.loadError = none := Generator.isLoaded_iff hg
    refine ⟨?_, ?_, ?_, ?_, hs.yields⟩
    · rw [hs.generator]
    · rw [hs.generator]
    · rw [hs.generator]
      exact hone
    · rw [hs.generator, hlimit]

/-- `x`, and as often as chance will have it another `x` in front. -/
def Grammar.row : Grammar where
  vocabulary := [⟨Name.output, [(⟨[.literal ['x']], []⟩, 2),
    (⟨[.literal ['x', ' '], .reference Name.output], []⟩, 1)], List.cons_ne_nil _ _⟩]
  root := Name.output
  root_mem := ⟨_, List.mem_cons_self, rfl⟩

/-- An iterator for two answers reaches the limit one and then gives a pair under the limit three,
another request coming in between; when it is advanced once more it gives nothing. For a folder
without rule files the same requests are answered without a grammar. -/
theorem served_history_interleaved :
    let h : History 1 :=
      (((((History.start.generate 2).advance 0).setLimit 3).next).advance 0).advance 0
    let dice : Script := .ofList [2, 2, 0, 0] false
    let g := Generator.ofGrammar .row dice 1
    let t : FileTree := ⟨[(["empty"], .folder)]⟩
    let e : LoadError := { fault := .noRuleFiles ruleExtension "empty" }
    (∃ ss, loadRules ss = .ok .row) ∧ h.limits 1 = [1, 3, 3] ∧
      (h.serve g).answers = [(some 0, .evaluated (.limitReached 1 Name.output)),
        (none, .evaluated (.pair ⟨['x', ' ', 'x'], []⟩)),
        (some 0, .evaluated (.pair ⟨['x'], []⟩))] ∧
      (h.serve g).answers.map Prod.snd =
        (Grammar.row.evaluations [1, 3, 3] dice).1.map .evaluated ∧
      (h.serve g).generator.grammar = some .row ∧ (h.serve g).yielded 0 = 2 ∧
      (t.loadRules "empty").1 = .error (.load e) ∧
      ∃ g', Generator.ofLoaded (t.loadRules "empty").1 dice 1 = .ok g' ∧
        (h.serve g').answers.map Prod.snd = [.notLoaded, .notLoaded, .notLoaded] ∧
        (h.serve g').generator.loadError = some e ∧ (h.serve g').generator.dice = dice := by
  intro h dice g t e
  let rules : Text := "#output weight 2\nx\n##empty\n#output\nx _output\n##empty".toList
  have hrules : (loadRules [.ofText rules]).map (fun g => (g.vocabulary, g.root)) =
      .ok (Grammar.row.vocabulary, Grammar.row.root) := by decide +kernel
  obtain ⟨⟨vocabulary, root, hroot⟩, hgrammar, hsame⟩ := Piece.map_eq_ok hrules
  cases hsame
  have hlimits : h.limits 1 = [1, 3, 3] := by decide
  obtain ⟨hanswered, -, hmade⟩ := served_history (.ofGrammar hgrammar) dice 1 h
  obtain ⟨hloaded, hkept, -, hresults, -⟩ := hanswered _ rfl
  obtain ⟨-, -, -, -, hyields⟩ := hmade g hloaded
  have hempty : (t.loadRules "empty").1 = .error (.load e) := by
    have hlist : t.listRules "empty" = .ok [] := by decide +kernel
    unfold FileTree.loadRules FileTree.findRules
    rw [hlist]
    rfl
  obtain ⟨-, hfailed, -⟩ := served_history (.ofFolder t "empty") dice 1 h
  obtain ⟨g', hg', -, herror, hnone, hdice⟩ := hfailed e hempty
  rw [hlimits] at hresults hnone
  exact ⟨⟨_, hgrammar⟩, hlimits, by decide +kernel, hresults, hkept, hyields 0, hempty, g', hg',
    hnone, herror, hdice⟩

end PairGrammar
