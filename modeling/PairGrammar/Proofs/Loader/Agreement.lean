import PairGrammar.Proofs.Loader.Loading
import PairGrammar.Proofs.Registry.Flaws

/-!
# The two passes agree

For sources that do not change, the second pass meets the blocks of the first one. So it never
misses a line or a name, and whether a rule set can be loaded is decided by what the first pass does
not look at: weights and content lines.

* `FlawIn`: a failure that is a flaw of some item of the sources.
* `flawIn_of_passAll_build`: over blocks whose names are known, the second pass fails by flaws only.
* `passes_agree`: how loading goes on behind a first pass that has come through.
-/

namespace PairGrammar

/-- The failure is a flaw of some item in the lines of a file, located there. -/
def FlawIn (declared : Name → Bool) (files : List (String × List Text)) (e : Failure) : Prop :=
  ∃ file ∈ files, ∃ x ∈ Item.scanLines file.2, ∃ f, x.2.Flaw declared f ∧ e = f.locate file.1 x.1

theorem FlawIn.cons {declared : Name → Bool} {files : List (String × List Text)} {e : Failure}
    (h : FlawIn declared files e) (file : String × List Text) :
    FlawIn declared (file :: files) e := by
  obtain ⟨file', hfile, h⟩ := h
  exact ⟨file', List.mem_cons_of_mem _ hfile, h⟩

namespace Loader

/-- A pass changes what the sources hold, but not their names. -/
theorem names_sources_passAll (pass : Pass) (reg : Registry) {ss : List Source}
    {texts : List (List Text)} (h : List.Forall₂ Source.Holds ss texts) :
    (passAll pass reg ss).sources.map (·.name) = ss.map (·.name) := by
  induction h generalizing reg with
  | nil => rfl
  | @cons s lines ss texts hs hss ih =>
    rw [passAll_cons hs]
    rcases pass reg s.name lines with ⟨reg', _ | e⟩
    · rw [List.map_cons, List.map_cons, s.name_read, ih]
    · rw [List.map_cons, List.map_cons, s.name_read]

/-- Over blocks whose names are known, the second pass fails by flaws only. -/
theorem flawIn_of_passAll_build {ss : List Source} {texts : List (List Text)}
    (h : List.Forall₂ Source.Holds ss texts) {bss : List (List Block)}
    (hbss : List.Forall₂ Layout texts bss) {reg : Registry}
    (hreg : ∀ d ∈ reg, d.isSealed = false)
    (hnames : ∀ b ∈ bss.flatten, ∃ n ∈ reg.names, b.Introduces n) {e : Failure}
    (he : (passAll Registry.build reg ss).failure = some e) :
    FlawIn reg.declares ((ss.map (·.name)).zip texts) e := by
  induction h generalizing reg bss with
  | nil => cases he
  | @cons s lines ss texts hs hss ih =>
    cases hbss with
    | @cons _ bs _ bss hbs hbss =>
      rw [List.flatten_cons, List.forall_mem_append] at hnames
      rw [passAll_cons hs] at he
      rcases Registry.build_cases hreg hbs hnames.1 s.name with
        ⟨reg', hb, hnames', hreg'⟩ | ⟨reg', x, f, hb, hx, hf⟩
      · rw [hb] at he
        have hrest := ih hbss hreg' (by rw [hnames']; exact hnames.2) he
        rw [Registry.declares_congr hnames'] at hrest
        exact hrest.cons _
      · rw [hb] at he
        cases he
        exact ⟨_, List.mem_cons_self, x, hx, f, hf, rfl⟩

theorem load_eq_error {l : Loader} {p : Passed} {e : Failure}
    (hp : passAll Registry.declare l.registry l.sources = p) (hpf : p.failure = none)
    (hroot : p.registry.declares l.root)
    (he : (passAll Registry.build p.registry p.sources).failure = some e) :
    (load l).result = .error e := by
  rw [result_load hp rfl, hpf]
  dsimp only
  rw [if_pos hroot, he]

end Loader

/-- Behind a first pass that has come through and has entered the root, loading fails by a flaw of
an item, or else it succeeds, and each name that the first pass has entered has got a production. -/
theorem passes_agree {ss : List Source} {texts : List (List Text)} {root : Name}
    (h : List.Forall₂ Source.Holds ss texts) {p q : Loader.Passed}
    (hp : Loader.passAll Registry.declare [] ss = p) (hpf : p.failure = none)
    (hroot : p.registry.declares root)
    (hq : Loader.passAll Registry.build p.registry p.sources = q) :
    (∀ e, q.failure = some e → loadRules ss root = .error e ∧
      FlawIn p.registry.declares ((ss.map (·.name)).zip texts) e) ∧
    (q.failure = none → (∃ g, loadRules ss root = .ok g) ∧
      ∀ n, (∃ d ∈ q.registry, d.name = n ∧ d.entries ≠ []) ↔ p.registry.declares n) := by
  refine ⟨fun e he => ?_, fun hqf => ?_⟩
  · refine ⟨Loader.load_eq_error hp hpf hroot (by rw [hq]; exact he), ?_⟩
    obtain ⟨bss, ns, hbss, hns, hreg⟩ := Loader.names_of_declare h hp hpf
    have hsources : List.Forall₂ Source.Holds p.sources texts := hp ▸ Loader.holds_passAll _ _ h
    have hnames : (p.sources.map (·.name)) = ss.map (·.name) :=
      hp ▸ Loader.names_sources_passAll _ _ h
    rw [← hnames]
    refine Loader.flawIn_of_passAll_build hsources hbss ?_ ?_ (by rw [hq]; exact he)
    · rw [hreg]
      intro d hd
      obtain ⟨n, -, rfl⟩ := List.mem_map.1 hd
      rfl
    · rw [hreg, Registry.names_ofRules]
      simpa only [mem_firsts] using exists_of_forall₂ hns
  · obtain ⟨bss, rs, hbss, hrs, hrange, hreg, hreg'⟩ := Loader.rules_of_passes h hp hpf hq hqf
    have hdeclares : ∀ n, p.registry.declares n ↔ n ∈ Rule.names rs := by
      intro n
      rw [hreg, Registry.declares_ofRules]
      simp
    obtain ⟨g, hg, -⟩ := Loader.complete_ofRules q.sources ((hdeclares root).1 hroot)
    rw [← hreg'] at hg
    refine ⟨⟨g, Loader.load_eq_ok_iff.2 ⟨p, q, hp, hpf, hroot, hq, hqf, hg⟩⟩, fun n => ?_⟩
    rw [hdeclares, hreg']
    constructor
    · rintro ⟨d, hd, rfl, -⟩
      obtain ⟨m, hm, rfl⟩ := List.mem_map.1 hd
      exact mem_firsts.1 hm
    · intro hn
      exact ⟨_, List.mem_map.2 ⟨n, mem_firsts.2 hn, rfl⟩, rfl, Rule.entries_ne_nil_iff.2 hn⟩

/-- The second source refers to a name that no block introduces. -/
theorem passes_agree_undefined :
    let ss : List Source :=
      [.ofText "#a\n_b\ny".toList "one", .ofText "#b weight 2\n1\n_a _c".toList "two"]
    let texts : List (List Text) :=
      [Text.lines "#a\n_b\ny".toList, Text.lines "#b weight 2\n1\n_a _c".toList]
    let p := Loader.passAll Registry.declare [] ss
    let e : Failure := .load ⟨.undefinedVariable ['c'], "two", some 3⟩
    List.Forall₂ Source.Holds ss texts ∧ p.failure = none ∧ p.registry.declares ['a'] ∧
      (Loader.passAll Registry.build p.registry p.sources).failure = some e ∧
      loadRules ss ['a'] = .error e ∧
      FlawIn p.registry.declares ((ss.map (·.name)).zip texts) e := by
  intro ss texts p e
  have hold : List.Forall₂ Source.Holds ss texts :=
    .cons ⟨rfl, by simp [Source.ofText]⟩ (.cons ⟨rfl, by simp [Source.ofText]⟩ .nil)
  have hpf : p.failure = none := by with_unfolding_all rfl
  have hroot : p.registry.declares ['a'] := by with_unfolding_all rfl
  have he : (Loader.passAll Registry.build p.registry p.sources).failure = some e := by
    with_unfolding_all rfl
  exact ⟨hold, hpf, hroot, he, (passes_agree hold rfl hpf hroot rfl).1 e he⟩

end PairGrammar
