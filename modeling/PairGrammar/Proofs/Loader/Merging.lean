import PairGrammar.Proofs.Evaluation.Reach
import PairGrammar.Proofs.Loader.Changing
import PairGrammar.Proofs.Loader.Reordering

/-!
# Sources that are added to a rule set

Sources may be added to others anywhere among them. As long as they introduce no name of the others,
they make no difference to the variables that there were: these keep their productions, which are
read as before although more names are declared, and they evaluate as before, because nothing leads
from them to a variable that is new.

* `Piece.read_unique`, `Block.Denotes.unique`: the declared names decide whether a block stands for
  a rule, and not for which one.
* `filter_flatten_of_sublist`: the blocks of a name that are there when sources have been added.
* `loadRules_merge`: what has been loaded without the new sources stays what it was.
-/

namespace PairGrammar

/-! ### What declared names decide -/

/-- Two readings of a text are the same, whatever names are declared for each. -/
theorem Piece.read_unique {declared declared' : Name → Bool} {m : Mode} {t : Text}
    {ps qs : List Piece} (h : read declared m t = .ok ps) (h' : read declared' m t = .ok qs) :
    ps = qs := by
  fun_induction read declared m t generalizing ps qs with
  | case1 =>
    cases h
    cases h'
    rfl
  | case2 before c r hc ih =>
    rw [read, if_pos hc] at h'
    exact ih h h'
  | case3 before c r hc ih =>
    rw [read, if_neg hc] at h'
    obtain ⟨us, hus, rfl⟩ := map_eq_ok h
    obtain ⟨vs, hvs, rfl⟩ := map_eq_ok h'
    rw [ih hus hvs]
  | case4 seen =>
    obtain ⟨-, us, hus, rfl⟩ := consReference_eq_ok h
    obtain ⟨-, vs, hvs, rfl⟩ := consReference_eq_ok h'
    cases hus
    cases hvs
    rfl
  | case5 seen c r hc ih =>
    rw [read, if_pos hc] at h'
    exact ih h h'
  | case6 => cases h
  | case7 seen c r hc hs glued loose =>
    rw [read, if_neg hc, if_neg hs] at h'
    obtain ⟨-, us, hus, rfl⟩ := consReference_eq_ok h
    obtain ⟨-, vs, hvs, rfl⟩ := consReference_eq_ok h'
    by_cases hu : c = '_'
    · rw [if_pos hu] at hus hvs
      rw [glued hus hvs]
    · rw [if_neg hu] at hus hvs
      obtain ⟨us', hus', rfl⟩ := map_eq_ok hus
      obtain ⟨vs', hvs', rfl⟩ := map_eq_ok hvs
      rw [loose hus' hvs']

theorem Content.unique {declared declared' : Name → Bool} {line : Text} {ps qs : List Piece}
    (h : Content declared line ps) (h' : Content declared' line qs) : ps = qs := by
  rcases h with ⟨he, rfl⟩ | ⟨he, hr⟩
  · rcases h' with ⟨-, rfl⟩ | ⟨hne, -⟩
    · rfl
    · exact absurd he hne
  · rcases h' with ⟨he', -⟩ | ⟨-, hr'⟩
    · exact absurd he' he
    · exact Piece.read_unique (Piece.readLine_eq_ok_iff_read.1 hr).2
        (Piece.readLine_eq_ok_iff_read.1 hr').2

/-- A block stands for one rule at most. -/
theorem Block.Denotes.unique {declared declared' : Name → Bool} {b : Block} {r s : Rule}
    (h : b.Denotes declared r) (h' : b.Denotes declared' s) : r = s := by
  obtain ⟨header, natural, code⟩ := r
  obtain ⟨header', natural', code'⟩ := s
  have hheader : header = header' := Except.ok.inj (h.header.symm.trans h'.header)
  have hnatural : natural = natural' := h.natural.unique h'.natural
  have hcode : code = code' := h.code.unique h'.code
  rw [hheader, hnatural, hcode]

/-! ### The blocks of a name -/

/-- The name that a block introduces. -/
def Block.name? (b : Block) : Option Name := (Item.header b.header).name?

theorem Block.introduces_iff {b : Block} {n : Name} : b.Introduces n ↔ b.name? = some n := by
  rw [Block.Introduces, Block.name?, Item.name?]
  rcases Header.readName b.header with e | ⟨m, rest⟩
  · simp [Except.toOption]
  · simp [Except.toOption]

/-- The block stands for the rule as soon as enough names are declared. -/
def Block.StandsFor (b : Block) (r : Rule) : Prop := ∃ declared, b.Denotes declared r

theorem Block.rightUnique_standsFor : Relator.RightUnique Block.StandsFor := by
  rintro b r s ⟨declared, hr⟩ ⟨declared', hs⟩
  exact hr.unique hs

theorem Block.StandsFor.name?_eq {b : Block} {r : Rule} (h : b.StandsFor r) :
    b.name? = some r.header.name := by
  obtain ⟨declared, hr⟩ := h
  exact Block.introduces_iff.1 hr.introduces

/-- The entries of a name come from the blocks that introduce it. -/
theorem Rule.entries_eq_of_filter_eq {bs cs : List Block} {rs ss : List Rule}
    (hr : List.Forall₂ Block.StandsFor bs rs) (hs : List.Forall₂ Block.StandsFor cs ss) {n : Name}
    (h : bs.filter (·.name? = some n) = cs.filter (·.name? = some n)) :
    entries rs n = entries ss n := by
  have hname : ∀ ⦃b : Block⦄ ⦃r : Rule⦄, b.StandsFor r →
      (decide (b.name? = some n) ↔ decide (r.header.name = n)) := by
    intro b r hb
    rw [hb.name?_eq]
    simp
  have hr' := List.rel_filter hname hr
  have hs' := List.rel_filter hname hs
  rw [h] at hr'
  rw [entries, entries, Block.rightUnique_standsFor.forall₂ hr' hs']

/-- The source gives lines that are laid out in blocks, the same at every reading. -/
def Source.IsLaidOut (s : Source) (bs : List Block) : Prop :=
  ∃ lines, s.Holds lines ∧ Layout lines bs

theorem Source.IsLaidOut.unique {s : Source} {bs cs : List Block} (hb : s.IsLaidOut bs)
    (hc : s.IsLaidOut cs) : bs = cs := by
  obtain ⟨lines, hs, hbs⟩ := hb
  obtain ⟨lines', hs', hcs⟩ := hc
  have hlines : lines = lines' := Except.ok.inj (hs.now.symm.trans hs'.now)
  subst hlines
  exact hbs.unique hcs

theorem Source.IsLaidOut.mem_names {s : Source} {bs : List Block} (h : s.IsLaidOut bs) {b : Block}
    (hb : b ∈ bs) {n : Name} (hn : b.name? = some n) : n ∈ s.now.names := by
  obtain ⟨lines, hs, hbs⟩ := h
  have hheader : Item.header b.header ∈ (Item.scanLines lines).map Prod.snd := by
    rw [Item.scanLines, Item.scan_of_layout hbs]
    exact List.mem_flatMap.2 ⟨b, hb, List.mem_cons_self⟩
  obtain ⟨x, hx, hxb⟩ := List.mem_map.1 hheader
  rw [hs.now]
  refine List.mem_filterMap.2 ⟨x, hx, ?_⟩
  rw [hxb]
  exact hn

/-- Where sources have been added without blocks of a name, the blocks of that name are the same, in
the same order. -/
theorem filter_flatten_of_sublist {p : Block → Bool} {ss ts us : List Source} (hsub : ss.Sublist us)
    (hperm : us.Perm (ss ++ ts))
    (hnew : ∀ s ∈ ts, ∀ bs, s.IsLaidOut bs → bs.filter p = []) {bss css : List (List Block)}
    (hb : List.Forall₂ Source.IsLaidOut ss bss) (hc : List.Forall₂ Source.IsLaidOut us css) :
    css.flatten.filter p = bss.flatten.filter p := by
  induction hsub generalizing ts bss css with
  | slnil =>
    cases hb
    cases hc
    rfl
  | @cons ss us s hsub ih =>
    cases hc with
    | @cons _ cs _ css hcs hc =>
      obtain ⟨ts', hts'⟩ := hsub.exists_perm_append
      -- the source at the front is one of those that have been added
      have hts : ts.Perm (s :: ts') := by
        have happ : (ss ++ ts).Perm (ss ++ s :: ts') :=
          hperm.symm.trans ((hts'.cons s).trans List.perm_middle.symm)
        exact (List.perm_append_left_iff ss).1 happ
      have hs : cs.filter p = [] := hnew s (hts.mem_iff.2 List.mem_cons_self) cs hcs
      have hnew' : ∀ t ∈ ts', ∀ bs, t.IsLaidOut bs → bs.filter p = [] :=
        fun t ht => hnew t (hts.mem_iff.2 (List.mem_cons_of_mem _ ht))
      rw [List.flatten_cons, List.filter_append, hs, List.nil_append]
      exact ih hts' hnew' hb hc
  | @cons_cons ss us s hsub ih =>
    cases hb with
    | @cons _ bs _ bss hbs hb =>
      cases hc with
      | @cons _ cs _ css hcs hc =>
        have htail : us.Perm (ss ++ ts) := hperm.cons_inv
        rw [List.flatten_cons, List.flatten_cons, List.filter_append, List.filter_append,
          hcs.unique hbs, ih htail hnew hb hc]

/-! ### Loading with and without the new sources -/

theorem Source.forall₂_isLaidOut {ss : List Source} {texts : List (List Text)}
    {bss : List (List Block)} (hs : List.Forall₂ Holds ss texts)
    (hbss : List.Forall₂ Layout texts bss) : List.Forall₂ IsLaidOut ss bss := by
  induction hs generalizing bss with
  | nil =>
    cases hbss
    exact .nil
  | @cons s lines ss texts hs _ ih =>
    cases hbss with
    | cons hbs hbss => exact .cons ⟨lines, hs, hbs⟩ (ih hbss)

/-- A loaded grammar holds the rules that the blocks of its sources stand for. -/
theorem exists_isLaidOut {ss : List Source} (hs : ∀ s ∈ ss, ∃ lines, s.Holds lines) {root : Name}
    {g : Grammar} (hg : loadRules ss root = .ok g) :
    ∃ bss rs, List.Forall₂ Source.IsLaidOut ss bss ∧
      List.Forall₂ Block.StandsFor bss.flatten rs ∧ g.Holds root rs := by
  obtain ⟨texts, htexts⟩ := exists_forall₂ hs
  obtain ⟨rs, hrs, hholds⟩ := ruleSet_of_loadRules htexts hg
  obtain ⟨bss, hbss, hden⟩ := hrs.blocks
  have hstand : List.Forall₂ Block.StandsFor bss.flatten rs := hden.imp fun _ _ hb => ⟨_, hb⟩
  exact ⟨bss, rs, Source.forall₂_isLaidOut htexts hbss, hstand, hholds⟩

/-- The names of a loaded grammar are those that its sources introduce. -/
theorem mem_firstNames_of_holds {ss : List Source} {bss : List (List Block)} {rs : List Rule}
    (hbss : List.Forall₂ Source.IsLaidOut ss bss)
    (hrs : List.Forall₂ Block.StandsFor bss.flatten rs) {n : Name} (hn : n ∈ Rule.names rs) :
    n ∈ firstNames ss := by
  obtain ⟨r, hr, hname⟩ := List.mem_map.1 hn
  obtain ⟨b, hb, hbr⟩ : ∃ b ∈ bss.flatten, b.StandsFor r := exists_of_forall₂ hrs.flip r hr
  obtain ⟨bs, hbs, hbmem⟩ := List.mem_flatten.1 hb
  obtain ⟨s, hs, hlaid⟩ : ∃ s ∈ ss, s.IsLaidOut bs := exists_of_forall₂ hbss.flip bs hbs
  have hname? : b.name? = some n := hname ▸ hbr.name?_eq
  exact List.mem_flatMap.2 ⟨s, hs, hlaid.mem_names hbmem hname?⟩

/-- Grammars that hold the same entries for a name have the same variable of that name. -/
theorem Grammar.Holds.find?_eq {g g' : Grammar} {root root' : Name} {rs rs' : List Rule}
    (h : g.Holds root rs) (h' : g'.Holds root' rs') {n : Name} (hn : n ∈ g.names)
    (he : Rule.entries rs' n = Rule.entries rs n) : g'.find? n = g.find? n := by
  have hn' : n ∈ g'.names := by
    rw [h.names, mem_firsts, ← Rule.entries_ne_nil_iff] at hn
    rw [h'.names, mem_firsts, ← Rule.entries_ne_nil_iff, he]
    exact hn
  obtain ⟨v, hv⟩ := Option.isSome_iff_exists.1 (isSome_find?_of_mem_names hn)
  obtain ⟨v', hv'⟩ := Option.isSome_iff_exists.1 (isSome_find?_of_mem_names hn')
  have hname : v'.name = v.name := (mem_of_find? hv').2.trans (mem_of_find? hv).2.symm
  have hentries : v'.entries = v.entries := by
    rw [h'.entries_of_find? hv', h.entries_of_find? hv, he]
  obtain ⟨name, entries, hne⟩ := v
  obtain ⟨name', entries', hne'⟩ := v'
  cases hname
  cases hentries
  rw [hv, hv']

/-- The variables of a loaded grammar are the same when sources have been added that introduce none
of the names of the others. -/
theorem find?_eq_of_sublist {ss ts us : List Source} (hsub : ss.Sublist us)
    (hperm : us.Perm (ss ++ ts)) (hs : ∀ s ∈ us, ∃ lines, s.Holds lines)
    (hnew : ∀ n ∈ firstNames ts, n ∉ firstNames ss) {root : Name} {g g' : Grammar}
    (hg : loadRules ss root = .ok g) (hg' : loadRules us root = .ok g') {n : Name}
    (hn : n ∈ g.names) : g'.find? n = g.find? n := by
  obtain ⟨bss, rs, hbss, hrs, hholds⟩ :=
    exists_isLaidOut (fun s hmem => hs s (hsub.subset hmem)) hg
  obtain ⟨css, rs', hcss, hrs', hholds'⟩ := exists_isLaidOut hs hg'
  have hold : n ∈ firstNames ss := by
    rw [hholds.names, mem_firsts] at hn
    exact mem_firstNames_of_holds hbss hrs hn
  have hfilter : css.flatten.filter (·.name? = some n) = bss.flatten.filter (·.name? = some n) := by
    refine filter_flatten_of_sublist hsub hperm (fun s hst bs hbs => ?_) hbss hcss
    rw [List.filter_eq_nil_iff]
    intro b hb hbn
    have hfirst : n ∈ firstNames ts :=
      List.mem_flatMap.2 ⟨s, hst, hbs.mem_names hb (of_decide_eq_true hbn)⟩
    exact hnew n hfirst hold
  exact hholds.find?_eq hholds' hn (Rule.entries_eq_of_filter_eq hrs' hrs hfilter)

variable {ρ : Type} [Dice ρ]

/-- Sources are added to others, anywhere among them, and introduce none of their names. Then what
could be loaded without them has the same variables with them, and these evaluate alike: with the
same rolls, to the same end. -/
theorem loadRules_merge {ss ts us : List Source} (hsub : ss.Sublist us)
    (hperm : us.Perm (ss ++ ts)) (hs : ∀ s ∈ us, ∃ lines, s.Holds lines)
    (hnew : ∀ n ∈ firstNames ts, n ∉ firstNames ss) {root : Name} {g g' : Grammar}
    (hg : loadRules ss root = .ok g) (hg' : loadRules us root = .ok g') {n : Name}
    (hn : n ∈ g.names) :
    g'.find? n = g.find? n ∧
      ∀ (d : Depth) (r : Recorded ρ), g'.evaluate n d r = g.evaluate n d r := by
  have hfind : ∀ m ∈ g.names, g'.find? m = g.find? m :=
    fun m hm => find?_eq_of_sublist hsub hperm hs hnew hg hg' hm
  refine ⟨hfind n hn, fun d r => evaluate_eq_of_leads (fun m hm => hfind m ?_) d r⟩
  -- nothing leads out of a closed grammar
  have hsome : (g.find? m).isSome :=
    hm.isSome_find? (isClosed_of_loadRules hg) (Grammar.isSome_find?_of_mem_names hn)
  obtain ⟨v, hv⟩ := Option.isSome_iff_exists.1 hsome
  obtain ⟨hmem, rfl⟩ := Grammar.mem_of_find? hv
  exact List.mem_map_of_mem hmem

/-- Between two sources stands a new one, which refers to names of both of them. -/
theorem loadRules_merge_between :
    let one : Source := .ofText "#a weight 2\n_b x\ny\n#a\nz\nz".toList "one"
    let two : Source := .ofText "#c weight 5\n_a\n_b\n#d\n_c\n_d".toList "two"
    let three : Source := .ofText "#b weight 0\n1\n_a".toList "three"
    let start : Recorded Script := ⟨.ofList [1, 0] false, []⟩
    ∃ g g', loadRules [one, three] ['a'] = .ok g ∧ loadRules [one, two, three] ['a'] = .ok g' ∧
      g.names = [['a'], ['b']] ∧ g'.names = [['a'], ['c'], ['d'], ['b']] ∧
      g'.find? ['a'] = g.find? ['a'] ∧
      g'.evaluate ['a'] ⟨3, 0⟩ start = g.evaluate ['a'] ⟨3, 0⟩ start := by
  intro one two three start
  have hs : ∀ s ∈ [one, two, three], ∃ lines, s.Holds lines := by
    intro s hmem
    rcases List.mem_cons.1 hmem with rfl | hmem
    · exact ⟨_, Source.holds_ofText _ _⟩
    · rcases List.mem_pair.1 hmem with rfl | rfl
      · exact ⟨_, Source.holds_ofText _ _⟩
      · exact ⟨_, Source.holds_ofText _ _⟩
  have hload : (loadRules [one, three] ['a']).map Grammar.names = .ok [['a'], ['b']] := by
    decide +kernel
  have hload' : (loadRules [one, two, three] ['a']).map Grammar.names =
      .ok [['a'], ['c'], ['d'], ['b']] := by
    decide +kernel
  obtain ⟨g, hg, hnames⟩ := Piece.map_eq_ok hload
  obtain ⟨g', hg', hnames'⟩ := Piece.map_eq_ok hload'
  have hsub : [one, three].Sublist [one, two, three] := .cons_cons one (.cons two (.refl _))
  have hperm : [one, two, three].Perm ([one, three] ++ [two]) :=
    (List.Perm.swap three two []).cons one
  have hfirst : firstNames [one, three] = [['a'], ['a'], ['b']] := by with_unfolding_all rfl
  have hfirst' : firstNames [two] = [['c'], ['d']] := by with_unfolding_all rfl
  have hnew : ∀ n ∈ firstNames [two], n ∉ firstNames [one, three] := by
    rw [hfirst, hfirst']
    decide
  have hn : ['a'] ∈ g.names := by
    rw [← hnames]
    decide
  have hmerge := loadRules_merge (ρ := Script) hsub hperm hs hnew hg hg' hn
  exact ⟨g, g', hg, hg', hnames.symm, hnames'.symm, hmerge.1, hmerge.2 ⟨3, 0⟩ start⟩

end PairGrammar
