import PairGrammar.Proofs.Loader.Loading
import PairGrammar.Proofs.Registry.Unplaced

/-!
# Rule sets in several files

Where every source is made of whole blocks, loading depends on the blocks alone: on all blocks of all
sources, one after the other. Which of them share a source makes no difference, apart from the
place that a failure is reported at. So a rule set may be split into files between any two blocks.

* `settle_passAll`: apart from the place of its failure, a pass over sources is a fold over blocks.
* `bare_loadRules`: so is loading; `Grammar.ofBlocks` says what it comes to.
* `loadRules_flatten`: sources are loaded as one source that holds the lines of all of them.
-/

namespace PairGrammar

/-- The grammar of blocks: their names are entered, then their productions are added, and then all
drafts are sealed. -/
def Grammar.ofBlocks (bs : List Block) (root : Name) : Except Failure Grammar :=
  match bs.foldlM Registry.declareBlock [] with
  | .error e => .error e
  | .ok reg =>
    if reg.declares root then
      match bs.foldlM Registry.buildBlock reg with
      | .error e => .error e
      | .ok reg' => (Loader.complete ⟨[], root, reg'⟩).1
    else .error (.ofFault (.rootNotFound root))

namespace Loader

/-- What a pass over sources has come to, apart from the place of its failure. -/
def Passed.settled (p : Passed) : Except Failure Registry := Registry.settle (p.registry, p.failure)

/-- A pass that goes over the blocks of each source goes over the blocks of all sources. -/
theorem settle_passAll {pass : Pass} {step : Registry → Block → Except Failure Registry}
    (hpass : ∀ reg file lines bs, Layout lines bs →
      Registry.settle (pass reg file lines) = bs.foldlM step reg)
    {ss : List Source} {texts : List (List Text)} (h : List.Forall₂ Source.Holds ss texts)
    {bss : List (List Block)} (hbss : List.Forall₂ Layout texts bss) (reg : Registry) :
    (passAll pass reg ss).settled = bss.flatten.foldlM step reg := by
  induction h generalizing bss reg with
  | nil =>
    cases hbss
    rfl
  | @cons s lines ss texts hs hss ih =>
    cases hbss with
    | @cons _ bs _ bss hbs hbss =>
      have hfirst := hpass reg s.name lines bs hbs
      rw [passAll_cons hs, List.flatten_cons, List.foldlM_append, ← hfirst]
      rcases pass reg s.name lines with ⟨reg', _ | e⟩
      · exact ih hbss reg'
      · rfl

/-- The close looks at the registry and the root only. -/
theorem complete_fst (ss ss' : List Source) (root : Name) (reg : Registry) :
    (complete ⟨ss, root, reg⟩).1 = (complete ⟨ss', root, reg⟩).1 := by
  unfold complete
  dsimp only
  cases List.find? (·.entries.isEmpty) reg with
  | none => rfl
  | some d => rfl

/-- Apart from the places of failures, loading is the two passes and the close. -/
theorem bare_load {l : Loader} {p q : Passed}
    (hp : passAll Registry.declare l.registry l.sources = p)
    (hq : passAll Registry.build p.registry p.sources = q) :
    (load l).result.mapError Failure.bare = match p.settled with
      | .error e => .error e
      | .ok reg =>
        if reg.declares l.root then
          match q.settled with
          | .error e => .error e
          | .ok reg' => (complete ⟨[], l.root, reg'⟩).1.mapError Failure.bare
        else .error (.ofFault (.rootNotFound l.root)) := by
  rw [result_load hp hq]
  obtain ⟨sources, reg, visited, _ | e⟩ := p
  · show Except.mapError Failure.bare (if reg.declares l.root then _ else _) =
      if reg.declares l.root then _ else _
    split
    · obtain ⟨sources', reg', visited', _ | e⟩ := q
      · exact congrArg (Except.mapError Failure.bare) (complete_fst sources' [] l.root reg')
      · rfl
    · rfl
  · rfl

end Loader

variable {ss : List Source} {texts : List (List Text)}

/-- Apart from the places of failures, what is loaded is the grammar of all blocks. -/
theorem bare_loadRules (h : List.Forall₂ Source.Holds ss texts) {bss : List (List Block)}
    (hbss : List.Forall₂ Layout texts bss) (root : Name) :
    (loadRules ss root).mapError Failure.bare =
      (Grammar.ofBlocks bss.flatten root).mapError Failure.bare := by
  generalize hp : Loader.passAll Registry.declare [] ss = p
  generalize hq : Loader.passAll Registry.build p.registry p.sources = q
  have hfirst : p.settled = bss.flatten.foldlM Registry.declareBlock [] := by
    rw [← hp]
    exact Loader.settle_passAll (fun reg file _ _ => Registry.settle_declare reg file) h hbss []
  have hsources : List.Forall₂ Source.Holds p.sources texts := hp ▸ Loader.holds_passAll _ _ h
  have hsecond : q.settled = bss.flatten.foldlM Registry.buildBlock p.registry := by
    rw [← hq]
    exact Loader.settle_passAll (fun reg file _ _ => Registry.settle_build reg file) hsources hbss _
  rw [loadRules, Loader.bare_load hp hq, Grammar.ofBlocks, ← hfirst]
  obtain ⟨sources, reg, visited, _ | e⟩ := p
  · show (if reg.declares root then _ else _) = Except.mapError Failure.bare
      (if reg.declares root then match bss.flatten.foldlM Registry.buildBlock reg with
        | .error e => _
        | .ok reg' => _ else _)
    rw [← hsecond]
    split
    · obtain ⟨sources', reg', visited', _ | e⟩ := q
      · rfl
      · exact congrArg Except.error e.bare_bare.symm
    · rfl
  · exact congrArg Except.error e.bare_bare.symm

/-- Sources that are made of whole blocks are loaded as one source that holds the lines of all of
them: with the same grammar, or with the same failure at another place. -/
theorem loadRules_flatten (h : List.Forall₂ Source.Holds ss texts)
    (hblocks : ∀ lines ∈ texts, ∃ bs, Layout lines bs) {s : Source} (hs : s.Holds texts.flatten)
    (root : Name) :
    (loadRules [s] root).mapError Failure.bare = (loadRules ss root).mapError Failure.bare := by
  obtain ⟨bss, hbss⟩ := exists_forall₂ hblocks
  have hone : List.Forall₂ Source.Holds [s] [texts.flatten] := .cons hs .nil
  have hlayout : List.Forall₂ Layout [texts.flatten] [bss.flatten] := .cons (.flatten hbss) .nil
  rw [bare_loadRules h hbss, bare_loadRules hone hlayout, List.flatten_singleton]

/-- If the second file refers to a name that no block introduces, in the last line that it has, both
ways fail in this line; with another line in its place both give one grammar. -/
theorem loadRules_flatten_undefined :
    let one : List Text := [['#', 'a'], ['_', 'b'], ['y']]
    let two : Text → List Text := fun last => [['n', 'o', 't', 'e'], ['#', 'b'], ['1'], last]
    let ss : Text → List Source := fun last => [⟨"one", .ok one, []⟩, ⟨"two", .ok (two last), []⟩]
    let s : Text → Source := fun last => ⟨"all", .ok (one ++ two last), []⟩
    loadRules (ss ['_', 'c']) ['a'] =
        .error (.load ⟨.undefinedVariable ['c'], "two", some 4⟩) ∧
      loadRules [s ['_', 'c']] ['a'] =
        .error (.load ⟨.undefinedVariable ['c'], "all", some 7⟩) ∧
      (loadRules [s ['_', 'c']] ['a']).mapError Failure.bare =
        (loadRules (ss ['_', 'c']) ['a']).mapError Failure.bare ∧
      ∃ g, loadRules (ss ['2']) ['a'] = .ok g ∧ loadRules [s ['2']] ['a'] = .ok g := by
  intro one two ss s
  have hold (last : Text) : List.Forall₂ Source.Holds (ss last) [one, two last] :=
    .cons ⟨rfl, List.forall_mem_nil _⟩ (.cons ⟨rfl, List.forall_mem_nil _⟩ .nil)
  have hall (last : Text) : (s last).Holds [one, two last].flatten :=
    ⟨by simp [s], List.forall_mem_nil _⟩
  have hblocks (last : Text) (hlast : last.trimRight ≠ []) :
      ∀ lines ∈ [one, two last], ∃ bs, Layout lines bs := by
    have hone : Layout one _ := .block (by decide) (by decide) (by decide) .nil
    have htwo : Layout (two last) _ := .skip (by decide) (.block (by decide) (by decide) hlast .nil)
    exact List.forall_mem_cons.2 ⟨⟨_, hone⟩, List.forall_mem_singleton.2 ⟨_, htwo⟩⟩
  have hsame (last : Text) (hlast : last.trimRight ≠ []) :
      (loadRules [s last] ['a']).mapError Failure.bare =
        (loadRules (ss last) ['a']).mapError Failure.bare :=
    loadRules_flatten (hold last) (hblocks last hlast) (hall last) ['a']
  have hfails : loadRules (ss ['_', 'c']) ['a'] =
      .error (.load ⟨.undefinedVariable ['c'], "two", some 4⟩) := by with_unfolding_all rfl
  have hfails' : loadRules [s ['_', 'c']] ['a'] =
      .error (.load ⟨.undefinedVariable ['c'], "all", some 7⟩) := by with_unfolding_all rfl
  obtain ⟨g, hg⟩ : ∃ g, loadRules (ss ['2']) ['a'] = .ok g := ⟨_, by with_unfolding_all rfl⟩
  have hg' : loadRules [s ['2']] ['a'] = .ok g := by
    have hmapped := hsame ['2'] (by decide)
    rw [hg] at hmapped
    cases hload : loadRules [s ['2']] ['a'] with
    | error e =>
      rw [hload] at hmapped
      cases hmapped
    | ok g' =>
      rw [hload] at hmapped
      cases hmapped
      rfl
  exact ⟨hfails, hfails', hsame _ (by decide), g, hg, hg'⟩

end PairGrammar
