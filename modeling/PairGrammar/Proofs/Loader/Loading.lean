import PairGrammar.Loader
import PairGrammar.Proofs.Registry.Passes

/-!
# Loading sources that do not change

For sources that give the same lines at every reading, loading comes to two passes over the blocks
of all sources, one after the other, and to sealing what they leave behind.

`RuleSet` says that the lines of sources are laid out in blocks, that these stand for the given
rules, and that nothing forbids to load them; `Grammar.Holds` says that a grammar is made of rules.

* `ruleSet_of_loadRules`: what can be loaded is a rule set, and the grammar is made of its rules.
* `loadRules_of_ruleSet`: a rule set can be loaded.
-/

namespace PairGrammar

/-- The source gives the same lines at every reading. -/
structure Source.Holds (s : Source) (lines : List Text) : Prop where
  now : s.now = .ok lines
  later : ∀ r ∈ s.later, r = .ok lines

/-- The lines of sources are blocks that stand for `rs`. The names of all blocks are declared for
each of them, the root is one of these names, and the weights of every name stay in range. -/
structure RuleSet (texts : List (List Text)) (root : Name) (rs : List Rule) : Prop where
  blocks : ∃ bss, List.Forall₂ Layout texts bss ∧
    List.Forall₂ (Block.Denotes fun n => decide (n ∈ Rule.names rs)) bss.flatten rs
  root_mem : root ∈ Rule.names rs
  inRange : Rule.InRange rs

/-- The variables are the names of the rules in the order of their first occurrence, each with the
productions and weights of all of its rules. -/
structure Grammar.Holds (g : Grammar) (root : Name) (rs : List Rule) : Prop where
  root : g.root = root
  names : g.names = firsts (Rule.names rs)
  entries : ∀ v ∈ g.vocabulary, v.entries = Rule.entries rs v.name

theorem Source.read_fst (s : Source) : s.read.1 = s.now := by
  unfold Source.read
  split <;> rfl

theorem Source.name_read (s : Source) : s.read.2.name = s.name := by
  unfold Source.read
  split <;> rfl

theorem Source.holds_ofText (t : Text) (name : String) : (ofText t name).Holds t.lines :=
  ⟨rfl, fun _ hr => absurd hr List.not_mem_nil⟩

theorem Source.Holds.read {s : Source} {lines : List Text} (h : s.Holds lines) :
    s.read = (.ok lines, s.read.2) ∧ s.read.2.Holds lines := by
  obtain ⟨name, now, later⟩ := s
  obtain ⟨rfl, hl⟩ := h
  cases later with
  | nil => exact ⟨rfl, ⟨rfl, hl⟩⟩
  | cons r later =>
    obtain ⟨rfl, hlater⟩ := List.forall_mem_cons.1 hl
    exact ⟨rfl, ⟨rfl, hlater⟩⟩

namespace Loader

/-! ### A pass over all sources -/

/-- Whether the source can be read or not, it is left as it is behind one reading. -/
theorem passSource_eq (pass : Pass) (reg : Registry) (s : Source) :
    passSource pass reg s = (s.read.2, match s.now with
      | .error e => (reg, some e)
      | .ok lines => pass reg s.name lines) := by
  rw [passSource, ← s.read_fst]
  rcases s.read with ⟨_ | _, _⟩ <;> rfl

theorem passAll_cons {pass : Pass} {reg : Registry} {s : Source} {ss : List Source}
    {lines : List Text} (h : s.Holds lines) :
    passAll pass reg (s :: ss) = match pass reg s.name lines with
      | (reg', some e) => ⟨s.read.2 :: ss, reg', [s.name], some e⟩
      | (reg', none) => ⟨s.read.2 :: (passAll pass reg' ss).sources,
          (passAll pass reg' ss).registry, s.name :: (passAll pass reg' ss).visited,
          (passAll pass reg' ss).failure⟩ := by
  have hr : passSource pass reg s = (s.read.2, pass reg s.name lines) := by
    rw [passSource_eq, h.now]
  rw [passAll, hr]
  rcases pass reg s.name lines with ⟨reg', _ | e⟩ <;> rfl

theorem holds_passAll (pass : Pass) (reg : Registry) {ss : List Source}
    {texts : List (List Text)} (h : List.Forall₂ Source.Holds ss texts) :
    List.Forall₂ Source.Holds (passAll pass reg ss).sources texts := by
  induction h generalizing reg with
  | nil => exact .nil
  | @cons s lines ss texts hs hss ih =>
    rw [passAll_cons hs]
    rcases pass reg s.name lines with ⟨reg', _ | e⟩
    · exact .cons hs.read.2 (ih _)
    · exact .cons hs.read.2 hss

/-- A pass that works block by block succeeds if the lines of all sources are laid out in blocks
and its steps over all of these succeed. -/
theorem passAll_eq_none_iff {pass : Pass} {step : Registry → Block → Except Failure Registry}
    (hp : ∀ reg file lines reg', pass reg file lines = (reg', none) ↔
      ∃ bs, Layout lines bs ∧ bs.foldlM step reg = .ok reg')
    {ss : List Source} {texts : List (List Text)} (h : List.Forall₂ Source.Holds ss texts)
    {reg reg' : Registry} :
    (passAll pass reg ss).failure = none ∧ (passAll pass reg ss).registry = reg' ↔
      ∃ bss, List.Forall₂ Layout texts bss ∧ bss.flatten.foldlM step reg = .ok reg' := by
  induction h generalizing reg with
  | nil => simp [passAll, pure, Except.pure]
  | @cons s lines ss texts hs hss ih =>
    rw [passAll_cons hs]
    constructor
    · intro hok
      cases hl : pass reg s.name lines with
      | mk reg'' e =>
        rw [hl] at hok
        cases e with
        | some e => cases hok.1
        | none =>
          obtain ⟨bs, hbs, hf⟩ := (hp _ _ _ _).1 hl
          obtain ⟨bss, hbss, hfs⟩ := ih.1 hok
          refine ⟨bs :: bss, .cons hbs hbss, ?_⟩
          rw [List.flatten_cons, List.foldlM_append, hf]
          exact hfs
    · rintro ⟨_, hbss, hf⟩
      cases hbss with
      | @cons _ bs _ bss hbs hbss =>
        rw [List.flatten_cons, List.foldlM_append] at hf
        cases hb : bs.foldlM step reg with
        | error e =>
          rw [hb] at hf
          cases hf
        | ok reg'' =>
          rw [hb] at hf
          rw [(hp reg s.name lines reg'').2 ⟨bs, hbs, hb⟩]
          exact ih.2 ⟨bss, hbss, hf⟩

theorem passAll_declare_iff {ss : List Source} {texts : List (List Text)}
    (h : List.Forall₂ Source.Holds ss texts) {reg reg' : Registry} :
    (passAll Registry.declare reg ss).failure = none ∧
        (passAll Registry.declare reg ss).registry = reg' ↔
      ∃ bss, List.Forall₂ Layout texts bss ∧
        bss.flatten.foldlM Registry.declareBlock reg = .ok reg' :=
  passAll_eq_none_iff (fun _ _ _ _ => Registry.declare_eq_none_iff) h

theorem passAll_build_iff {ss : List Source} {texts : List (List Text)}
    (h : List.Forall₂ Source.Holds ss texts) {reg reg' : Registry} :
    (passAll Registry.build reg ss).failure = none ∧
        (passAll Registry.build reg ss).registry = reg' ↔
      ∃ bss, List.Forall₂ Layout texts bss ∧
        bss.flatten.foldlM Registry.buildBlock reg = .ok reg' :=
  passAll_eq_none_iff (fun _ _ _ _ => Registry.build_eq_none_iff) h

/-! ### Loading as passes and a close -/

/-- What loading gives, and the loader that it leaves: it stops in the first pass, for want of a root,
or in the second pass, or it comes to the close. -/
theorem outcome_load {l : Loader} {p q : Passed}
    (hp : passAll Registry.declare l.registry l.sources = p)
    (hq : passAll Registry.build p.registry p.sources = q) :
    ((load l).result, (load l).loader) = match p.failure with
      | some e => (.error e, { l with sources := p.sources, registry := p.registry })
      | none =>
        if p.registry.declares l.root then
          match q.failure with
          | some e => (.error e, { l with sources := q.sources, registry := q.registry })
          | none => complete { l with sources := q.sources, registry := q.registry }
        else (.error (.ofFault (.rootNotFound l.root)),
          { l with sources := p.sources, registry := p.registry }) := by
  rw [load, hp]
  obtain ⟨sources, reg, visited, _ | e⟩ := p
  · dsimp only at hq ⊢
    cases hroot : reg.declares l.root with
    | false => rfl
    | true =>
      rw [hq]
      obtain ⟨sources', reg', visited', _ | e⟩ := q
      · dsimp only
        rcases complete { l with sources := sources', registry := reg' } with ⟨_ | _, _⟩ <;> rfl
      · rfl
  · rfl

/-- The first failure on the way from the first pass to the close is the one that is given. -/
theorem result_load {l : Loader} {p q : Passed}
    (hp : passAll Registry.declare l.registry l.sources = p)
    (hq : passAll Registry.build p.registry p.sources = q) :
    (load l).result = match p.failure with
      | some e => .error e
      | none =>
        if p.registry.declares l.root then
          match q.failure with
          | some e => .error e
          | none => (complete { l with sources := q.sources, registry := q.registry }).1
        else .error (.ofFault (.rootNotFound l.root)) := by
  have h : (load l).result = _ := congrArg Prod.fst (outcome_load hp hq)
  rw [h]
  cases p.failure with
  | some e => rfl
  | none =>
    cases p.registry.declares l.root with
    | false => rfl
    | true =>
      cases q.failure with
      | some e => rfl
      | none => rfl

/-- What loading does from its first pass to its close, where nothing fails. -/
theorem load_eq_ok_iff {l : Loader} {g : Grammar} :
    (load l).result = .ok g ↔
      ∃ p q, passAll Registry.declare l.registry l.sources = p ∧ p.failure = none ∧
        p.registry.declares l.root ∧ passAll Registry.build p.registry p.sources = q ∧
        q.failure = none ∧
        (complete { l with sources := q.sources, registry := q.registry }).1 = .ok g := by
  simp only [exists_and_left, exists_eq_left', result_load rfl rfl]
  cases (passAll Registry.declare l.registry l.sources).failure with
  | some e => simp
  | none =>
    by_cases hroot : (passAll Registry.declare l.registry l.sources).registry.declares l.root
    · simp only [hroot, if_true, true_and]
      split <;> simp [*]
    · simp [hroot]

end Loader

/-! ### Sealing what the passes leave -/

namespace Grammar

theorem finishAll_eq_ok {ds : List Draft} (h : ∀ d ∈ ds, d.entries ≠ []) :
    ∃ vs, (finishAll ds).1 = .ok vs ∧
      List.Forall₂ (fun d v => v.name = d.name ∧ v.entries = d.entries) ds vs := by
  induction ds with
  | nil => exact ⟨[], rfl, .nil⟩
  | cons d ds ih =>
    obtain ⟨hd, hds⟩ := List.forall_mem_cons.1 h
    obtain ⟨vs, hvs, hall⟩ := ih hds
    refine ⟨⟨d.name, d.entries, hd⟩ :: vs, ?_, .cons ⟨rfl, rfl⟩ hall⟩
    rw [finishAll, Draft.finish, dif_neg hd]
    dsimp only
    rw [hvs]
    rfl

theorem put_of_not_mem {v : Variable} {ws : List Variable} (h : v.name ∉ ws.map (·.name)) :
    put v ws = ws ++ [v] := by
  induction ws with
  | nil => rfl
  | cons w ws ih =>
    simp only [List.map_cons, List.mem_cons, not_or] at h
    rw [put, if_neg (Ne.symm h.1), ih h.2, List.cons_append]

/-- Variables of different names stay as they are. -/
theorem foldl_put {vs ws : List Variable} (h : ((ws ++ vs).map (·.name)).Nodup) :
    vs.foldl (fun ws v => put v ws) ws = ws ++ vs := by
  induction vs generalizing ws with
  | nil => simp
  | cons v vs ih =>
    have hv : v.name ∉ ws.map (·.name) := by
      rw [List.map_append, List.map_cons, List.nodup_append] at h
      exact fun hm => h.2.2 _ hm _ List.mem_cons_self rfl
    rw [List.foldl_cons, put_of_not_mem hv, ih (by simpa using h)]
    simp

end Grammar

/-- Sealing a registry keeps its names and what it holds for them. -/
theorem Registry.forall₂_ofRules {ns : List Name} {rs : List Rule} {vs : List Variable}
    (h : List.Forall₂ (fun d v => v.name = d.name ∧ v.entries = d.entries) (ofRules ns rs) vs) :
    vs.map (·.name) = ns ∧ ∀ v ∈ vs, v.entries = Rule.entries rs v.name := by
  induction ns generalizing vs with
  | nil =>
    cases h
    simp
  | cons n ns ih =>
    cases h with
    | @cons _ v _ vs hv hvs =>
      obtain ⟨hns, hes⟩ := ih hvs
      refine ⟨by rw [List.map_cons, hv.1, hns], List.forall_mem_cons.2 ⟨?_, hes⟩⟩
      rw [hv.2, hv.1]

namespace Loader

/-- The variables have the names and the entries of the drafts. -/
abbrev Matches : List Draft → List Variable → Prop :=
  List.Forall₂ fun d v => v.name = d.name ∧ v.entries = d.entries

theorem Matches.names_eq {ds : List Draft} {vs : List Variable} (h : Matches ds vs) :
    vs.map (·.name) = ds.map (·.name) := by
  induction h with
  | nil => rfl
  | cons hv _ ih => rw [List.map_cons, List.map_cons, hv.1, ih]

/-- A close comes upon an empty draft; or drafts of different names become the variables of a
grammar one by one, as long as one of them has the name of the root. -/
theorem complete_cases {l : Loader} (hn : l.registry.names.Nodup) :
    (∃ d ∈ l.registry, d.entries = [] ∧
        (complete l).1 = .error (.ofFault (.vanishedVariable d.name))) ∨
      ∃ vs, Matches l.registry vs ∧ (complete l).1 =
        if h : ∃ v ∈ vs, v.name = l.root then .ok ⟨vs, l.root, h⟩
        else .error (.rootMissing l.root) := by
  cases hfind : List.find? (·.entries.isEmpty) l.registry with
  | some d =>
    have hempty : d.entries = [] := by simpa using List.find?_some hfind
    refine .inl ⟨d, List.mem_of_find?_eq_some hfind, hempty, ?_⟩
    rw [complete, hfind]
  | none =>
    have hfull : ∀ d ∈ l.registry, d.entries ≠ [] :=
      fun d hd => by simpa using List.find?_eq_none.1 hfind d hd
    obtain ⟨vs, hvs, hall⟩ := Grammar.finishAll_eq_ok hfull
    have hput : vs.foldl (fun ws v => Grammar.put v ws) [] = vs := by
      apply Grammar.foldl_put
      rw [List.nil_append, Matches.names_eq hall]
      exact hn
    refine .inr ⟨vs, hall, ?_⟩
    rw [complete, hfind]
    dsimp only
    rw [Grammar.ofDrafts]
    dsimp only
    rw [hvs]
    show Grammar.ofVariables? vs l.root = _
    rw [Grammar.ofVariables?]
    simp only [hput]

/-- What holds rules can be sealed, as long as the root is the name of a rule. -/
theorem complete_ofRules (ss : List Source) {root : Name} {rs : List Rule}
    (hroot : root ∈ Rule.names rs) :
    ∃ g, (complete ⟨ss, root, Registry.ofRules (firsts (Rule.names rs)) rs⟩).1 = .ok g ∧
      g.Holds root rs := by
  have hne : ∀ d ∈ Registry.ofRules (firsts (Rule.names rs)) rs, d.entries ≠ [] := by
    intro d hd
    obtain ⟨n, hn, rfl⟩ := List.mem_map.1 hd
    exact Rule.entries_ne_nil_iff.2 (mem_firsts.1 hn)
  have hnodup : (Registry.ofRules (firsts (Rule.names rs)) rs).names.Nodup := by
    rw [Registry.names_ofRules]
    exact nodup_firsts _
  rcases complete_cases (l := ⟨ss, root, _⟩) hnodup with ⟨d, hd, hempty, -⟩ | ⟨vs, hall, hc⟩
  · exact absurd hempty (hne d hd)
  · obtain ⟨hnames, hentries⟩ := Registry.forall₂_ofRules hall
    have hmem : ∃ v ∈ vs, v.name = root := by
      have : root ∈ vs.map (·.name) := by rw [hnames]; exact mem_firsts.2 hroot
      simpa using this
    rw [dif_pos hmem] at hc
    exact ⟨_, hc, rfl, hnames, hentries⟩

end Loader

/-! ### Rule sets -/

theorem Rule.names_eq_of_forall₂ {declared : Name → Bool} {bs : List Block} {rs : List Rule}
    {ns : List Name} (hr : List.Forall₂ (Block.Denotes declared) bs rs)
    (hn : List.Forall₂ Block.Introduces bs ns) : ns = Rule.names rs := by
  induction hr generalizing ns with
  | nil =>
    cases hn
    rfl
  | cons hb _ ih =>
    cases hn with
    | cons hm hms => rw [hm.unique hb.introduces, ih hms, names, names, List.map_cons]

theorem Rule.introduces_names {declared : Name → Bool} {bs : List Block} {rs : List Rule}
    (hr : List.Forall₂ (Block.Denotes declared) bs rs) :
    List.Forall₂ Block.Introduces bs (Rule.names rs) :=
  List.forall₂_map_right_iff.2 (hr.imp fun _ _ hb => hb.introduces)

theorem Layout.unique_all {texts : List (List Text)} {bss css : List (List Block)}
    (hb : List.Forall₂ Layout texts bss) (hc : List.Forall₂ Layout texts css) : bss = css := by
  have hunique : Relator.RightUnique Layout := fun _ _ _ h h' => h.unique h'
  exact hunique.forall₂ hb hc

theorem Rule.inRange_nil : InRange [] := fun _ => Nat.zero_le _

theorem declared_firsts (ns : List Name) :
    (fun n => decide (n ∈ firsts ns)) = fun n => decide (n ∈ ns) := by
  simp only [mem_firsts]

section

variable {ss : List Source} {texts : List (List Text)} {root : Name}

/-- The first pass leaves the names of all blocks, each at its first occurrence. -/
theorem Loader.names_of_declare (h : List.Forall₂ Source.Holds ss texts) {p : Passed}
    (hp : passAll Registry.declare [] ss = p) (hpf : p.failure = none) :
    ∃ bss ns, List.Forall₂ Layout texts bss ∧ List.Forall₂ Block.Introduces bss.flatten ns ∧
      p.registry = Registry.ofRules (firsts ns) [] := by
  obtain ⟨bss, hbss, hf⟩ := (passAll_declare_iff h).1 ⟨hp ▸ hpf, congrArg _ hp⟩
  obtain ⟨ns, hns, hreg⟩ := (Registry.foldlM_declareBlock_iff []).1 hf
  exact ⟨bss, ns, hbss, hns, hreg⟩

/-- The second pass goes over the same blocks, and leaves the rules that they stand for. -/
theorem Loader.rules_of_passes (h : List.Forall₂ Source.Holds ss texts) {p q : Passed}
    (hp : passAll Registry.declare [] ss = p) (hpf : p.failure = none)
    (hq : passAll Registry.build p.registry p.sources = q) (hqf : q.failure = none) :
    ∃ bss rs, List.Forall₂ Layout texts bss ∧
      List.Forall₂ (Block.Denotes fun n => decide (n ∈ Rule.names rs)) bss.flatten rs ∧
      Rule.InRange rs ∧ p.registry = Registry.ofRules (firsts (Rule.names rs)) [] ∧
      q.registry = Registry.ofRules (firsts (Rule.names rs)) rs := by
  obtain ⟨bss, ns, hbss, hns, hreg⟩ := names_of_declare h hp hpf
  have hsources : List.Forall₂ Source.Holds p.sources texts := hp ▸ holds_passAll _ _ h
  obtain ⟨css, hcss, hf⟩ := (passAll_build_iff hsources).1 ⟨hq ▸ hqf, congrArg _ hq⟩
  obtain rfl := Layout.unique_all hbss hcss
  rw [hreg] at hf
  obtain ⟨rs, hrs, -, hrange, hreg'⟩ := (Registry.foldlM_buildBlock_iff Rule.inRange_nil).1 hf
  obtain rfl := Rule.names_eq_of_forall₂ hrs hns
  rw [List.nil_append] at hrange hreg'
  rw [declared_firsts] at hrs
  exact ⟨bss, rs, hbss, hrs, hrange, hreg, hreg'⟩

/-- What can be loaded is a rule set, and its rules make the grammar. -/
theorem ruleSet_of_loadRules (h : List.Forall₂ Source.Holds ss texts) {g : Grammar}
    (hg : loadRules ss root = .ok g) : ∃ rs, RuleSet texts root rs ∧ g.Holds root rs := by
  obtain ⟨p, q, hp, hpf, hroot, hq, hqf, hc⟩ := Loader.load_eq_ok_iff.1 hg
  obtain ⟨bss, rs, hbss, hrs, hrange, hreg, hreg'⟩ := Loader.rules_of_passes h hp hpf hq hqf
  have hmem : root ∈ Rule.names rs := by
    rw [hreg, Registry.declares_ofRules] at hroot
    simpa using hroot
  refine ⟨rs, ⟨⟨bss, hbss, hrs⟩, hmem, hrange⟩, ?_⟩
  obtain ⟨g', hg', hholds⟩ := Loader.complete_ofRules q.sources hmem
  rw [hreg', hg'] at hc
  cases hc
  exact hholds

/-- A rule set can be loaded, and its rules make the grammar. -/
theorem loadRules_of_ruleSet (h : List.Forall₂ Source.Holds ss texts) {rs : List Rule}
    (hrs : RuleSet texts root rs) : ∃ g, loadRules ss root = .ok g ∧ g.Holds root rs := by
  obtain ⟨bss, hbss, hden⟩ := hrs.blocks
  obtain ⟨hpf, hpr⟩ := (Loader.passAll_declare_iff h).2
    ⟨bss, hbss, (Registry.foldlM_declareBlock_iff []).2
      ⟨Rule.names rs, Rule.introduces_names hden, rfl⟩⟩
  have hsources := Loader.holds_passAll Registry.declare (Registry.ofRules (firsts []) []) h
  generalize hp : Loader.passAll Registry.declare (Registry.ofRules (firsts []) []) ss = p
    at hpf hpr hsources
  rw [List.nil_append] at hpr
  have hnames : ∀ r ∈ rs, r.header.name ∈ firsts (Rule.names rs) :=
    fun r hr => mem_firsts.2 (List.mem_map_of_mem hr)
  obtain ⟨hqf, hqr⟩ := (Loader.passAll_build_iff hsources).2
    ⟨bss, hbss, (Registry.foldlM_buildBlock_iff Rule.inRange_nil).2
      ⟨rs, by rwa [declared_firsts], hnames, hrs.inRange, rfl⟩⟩
  rw [← hpr] at hqf hqr
  generalize hq : Loader.passAll Registry.build p.registry p.sources = q at hqf hqr
  rw [List.nil_append] at hqr
  have hroot : p.registry.declares root := by
    rw [hpr, Registry.declares_ofRules]
    simpa using hrs.root_mem
  obtain ⟨g, hg, hholds⟩ := Loader.complete_ofRules q.sources hrs.root_mem
  rw [← hqr] at hg
  exact ⟨g, Loader.load_eq_ok_iff.2 ⟨p, q, hp, hpf, hroot, hq, hqf, hg⟩, hholds⟩

end

end PairGrammar
