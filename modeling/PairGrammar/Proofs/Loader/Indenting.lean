import PairGrammar.Proofs.Block.Indenting
import PairGrammar.Proofs.Loader.Changing
import PairGrammar.Proofs.Loader.Splitting

/-!
# Loading lines with blanks in front

Blanks put in front of content lines make no difference to what is loaded, neither to a grammar nor
to a failure and its place, unless they are put in front of the line `##empty`. Behind blanks that
line is refused, so where it is shifted, nothing can be loaded any more.

* `through_of_aligned`: a pass over items that are the same but for blanks.
* `build_of_indented`: the second pass over the lines of one source.
* `passAll_of_indented`: passes over all sources.
* `loadRules_of_indented`: loading.
-/

namespace PairGrammar

/-- The content line with the number `k` is `##empty` behind blanks. -/
def ShiftedAt (lines : List Text) (k : Nat) : Prop :=
  ∃ i, (k, i) ∈ Item.scanLines lines ∧ ∃ line, i.content? = some line ∧ line.IsShifted

/-- How a file fails at such a line. -/
def Failure.shifted (file : String) (k : Nat) : Failure :=
  .load ⟨.doubleHash Header.emptyLine, some file, some k⟩

namespace Registry

/-! ### Passes over one source -/

theorem declareItem_of_indents (reg : Registry) {i i' : Item} (h : i.Indents i') :
    declareItem reg i' = declareItem reg i := by
  cases h with
  | same => rfl
  | natural line _ => rfl
  | code line _ => rfl

/-- A step of the second pass is the same but at `##empty` behind blanks. -/
theorem buildItem_of_indents (s : Registry × Progress) {i i' : Item} (h : i.Indents i') :
    buildItem s i' = buildItem s i ∨ (∃ line, i'.content? = some line ∧ line.IsShifted) ∧
      buildItem s i' = .error (.ofFault (.doubleHash Header.emptyLine)) := by
  obtain ⟨reg, q⟩ := s
  cases h with
  | same => exact .inl rfl
  | @natural blanks line hblanks =>
    cases q with
    | none | natural => exact .inl rfl
    | header h =>
      by_cases hs : (blanks ++ line).IsShifted
      · refine .inr ⟨⟨_, rfl, hs⟩, ?_⟩
        simp only [buildItem, readContent_of_isShifted reg hs]
      · simp only [buildItem, readContent_append reg hblanks hs, true_or]
  | @code blanks line hblanks =>
    cases q with
    | none | header => exact .inl rfl
    | natural h ps =>
      by_cases hs : (blanks ++ line).IsShifted
      · refine .inr ⟨⟨_, rfl, hs⟩, ?_⟩
        simp only [buildItem, readContent_of_isShifted reg hs]
      · simp only [buildItem, readContent_append reg hblanks hs, true_or]

/-- Where a step is the same or fails in a way of its own, so is a pass. -/
theorem through_of_aligned {σ : Type} {step : σ → Item → Except Failure σ}
    {F : Item → Failure → Prop}
    (hstep : ∀ s i i', i.Indents i' → step s i' = step s i ∨ ∃ e, F i' e ∧ step s i' = .error e)
    {items items' : List (Nat × Item)} (h : Item.Aligned items items') (file : String) (s : σ) :
    through step file s items' = through step file s items ∨
      ∃ y ∈ items', ∃ e, F y.2 e ∧ (through step file s items').2 = some (e.locate file y.1) := by
  induction h generalizing s with
  | nil => exact .inl rfl
  | @cons x y items items' hxy _ ih =>
    obtain ⟨k, i⟩ := x
    obtain ⟨k', i'⟩ := y
    obtain ⟨hk, hi⟩ := hxy
    obtain rfl : k = k' := hk
    rcases hstep s i i' hi with heq | ⟨e, hF, he⟩
    · rw [through, through, heq]
      cases step s i with
      | error e => exact .inl rfl
      | ok s' =>
        rcases ih s' with heq' | ⟨y, hy, e, hF, he⟩
        · exact .inl heq'
        · exact .inr ⟨y, List.mem_cons_of_mem _ hy, e, hF, he⟩
    · refine .inr ⟨(k, i'), List.mem_cons_self, e, hF, ?_⟩
      rw [through, he]

variable {ls ms : List Text}

theorem declare_of_indented (reg : Registry) (file : String) (h : Indented .header ls ms) :
    reg.declare file ms = reg.declare file ls := by
  rcases through_of_aligned (F := fun _ _ => False)
    (fun reg i i' hi => .inl (declareItem_of_indents reg hi)) (Item.scan_of_indented h 0) file reg
    with heq | ⟨_, _, _, hF, _⟩
  · exact heq
  · exact hF.elim

theorem build_of_indented (reg : Registry) (file : String) (h : Indented .header ls ms) :
    reg.build file ms = reg.build file ls ∨
      ∃ k, ShiftedAt ms k ∧ (reg.build file ms).2 = some (.shifted file k) := by
  rw [build, build]
  rcases through_of_aligned
    (F := fun i e => (∃ line, i.content? = some line ∧ line.IsShifted) ∧
      e = .ofFault (.doubleHash Header.emptyLine))
    (fun s i i' hi => (buildItem_of_indents s hi).imp_right fun h => ⟨_, ⟨h.1, rfl⟩, h.2⟩)
    (Item.scan_of_indented h 0) file (reg, .none) with heq | ⟨⟨k, i⟩, hy, e, ⟨hi, rfl⟩, he⟩
  · rw [Item.scanLines, Item.scanLines, heq]
    exact .inl rfl
  · exact .inr ⟨k, ⟨i, hy, hi⟩, he⟩

end Registry

/-! ### Passes over sources -/

namespace Source

/-- The second source has the name of the first one, and at every reading its lines with blanks put
in front of content lines. -/
structure Indents (s s' : Source) : Prop where
  name_eq : s'.name = s.name
  indented : ∃ ls ms, s.Holds ls ∧ s'.Holds ms ∧ Indented .header ls ms

theorem Indents.read {s s' : Source} (h : s.Indents s') : s.read.2.Indents s'.read.2 where
  name_eq := by rw [name_read, name_read, h.name_eq]
  indented := by
    obtain ⟨ls, ms, hs, hs', hi⟩ := h.indented
    exact ⟨ls, ms, hs.read.2, hs'.read.2, hi⟩

/-- At some reading a content line of the source, the one with the number `k`, is `##empty` behind
blanks. -/
def ShiftsAt (s : Source) (k : Nat) : Prop :=
  ∃ lines, .ok lines ∈ s.now :: s.later ∧ ShiftedAt lines k

theorem ShiftsAt.of_read {s : Source} {k : Nat} (h : s.read.2.ShiftsAt k) : s.ShiftsAt k := by
  obtain ⟨name, now, later⟩ := s
  cases later with
  | nil => exact h
  | cons r later =>
    obtain ⟨lines, hl, hk⟩ := h
    exact ⟨lines, List.mem_cons_of_mem _ hl, hk⟩

end Source

namespace Loader

/-- Passes that are the same on indented lines, or fail in a way of their own, are so on indented
sources. -/
theorem passAll_of_indented {pass : Pass} {F : String → List Text → Failure → Prop}
    (hpass : ∀ reg file ls ms, Indented .header ls ms →
      pass reg file ms = pass reg file ls ∨ ∃ e, F file ms e ∧ (pass reg file ms).2 = some e)
    {ss ss' : List Source} (h : List.Forall₂ Source.Indents ss ss') (reg : Registry) :
    ((passAll pass reg ss').registry = (passAll pass reg ss).registry ∧
      (passAll pass reg ss').failure = (passAll pass reg ss).failure) ∨
    ∃ s ∈ ss', ∃ ms, s.Holds ms ∧ ∃ e, F s.name ms e ∧
      (passAll pass reg ss').failure = some e := by
  induction h generalizing reg with
  | nil => exact .inl ⟨rfl, rfl⟩
  | @cons s s' ss ss' hs _ ih =>
    obtain ⟨ls, ms, hl, hm, hi⟩ := hs.indented
    rw [passAll_cons hl, passAll_cons hm]
    rcases hpass reg s'.name ls ms hi with heq | ⟨e, hF, he⟩
    · rw [heq, hs.name_eq]
      rcases pass reg s.name ls with ⟨reg', _ | e⟩
      · rcases ih reg' with hsame | ⟨t, ht, hfails⟩
        · exact .inl hsame
        · exact .inr ⟨t, List.mem_cons_of_mem _ ht, hfails⟩
      · exact .inl ⟨rfl, rfl⟩
    · refine .inr ⟨s', List.mem_cons_self, ms, hm, e, hF, ?_⟩
      generalize pass reg s'.name ms = x at he ⊢
      obtain ⟨reg', _ | e'⟩ := x
      · cases he
      · exact he

variable {ss ss' : List Source}

theorem passAll_declare_of_indented (h : List.Forall₂ Source.Indents ss ss') (reg : Registry) :
    (passAll Registry.declare reg ss').registry = (passAll Registry.declare reg ss).registry ∧
      (passAll Registry.declare reg ss').failure = (passAll Registry.declare reg ss).failure := by
  rcases passAll_of_indented (F := fun _ _ _ => False)
    (fun reg file ls ms hi => .inl (Registry.declare_of_indented reg file hi)) h reg
    with hsame | ⟨_, _, _, _, _, hF, _⟩
  · exact hsame
  · exact hF.elim

theorem passAll_build_of_indented (h : List.Forall₂ Source.Indents ss ss') (reg : Registry) :
    ((passAll Registry.build reg ss').registry = (passAll Registry.build reg ss).registry ∧
      (passAll Registry.build reg ss').failure = (passAll Registry.build reg ss).failure) ∨
    ∃ s ∈ ss', ∃ k, s.ShiftsAt k ∧
      (passAll Registry.build reg ss').failure = some (.shifted s.name k) := by
  rcases passAll_of_indented (F := fun file ms e => ∃ k, ShiftedAt ms k ∧ e = .shifted file k)
    (fun reg file ls ms hi => (Registry.build_of_indented reg file hi).imp_right
      fun ⟨k, hk, he⟩ => ⟨_, ⟨k, hk, rfl⟩, he⟩) h reg
    with hsame | ⟨s, hs, ms, hm, _, ⟨k, hk, rfl⟩, he⟩
  · exact .inl hsame
  · refine .inr ⟨s, hs, k, ⟨ms, ?_, hk⟩, he⟩
    rw [hm.now]
    exact List.mem_cons_self

end Loader

/-! ### Loading -/

variable {ss ss' : List Source}

theorem Source.forall₂_indents_read (h : List.Forall₂ Source.Indents ss ss') :
    List.Forall₂ Source.Indents (ss.map (·.read.2)) (ss'.map (·.read.2)) := by
  rw [List.forall₂_map_left_iff, List.forall₂_map_right_iff]
  exact h.imp fun _ _ hs => hs.read

/-- Loading gives the same, or it fails at a line that is `##empty` behind blanks. -/
theorem loadRules_eq_or_shifted (h : List.Forall₂ Source.Indents ss ss') (root : Name) :
    loadRules ss' root = loadRules ss root ∨
      ∃ s ∈ ss', ∃ k, s.ShiftsAt k ∧ loadRules ss' root = .error (.shifted s.name k) := by
  -- the first pass never fails in a way of its own, so both second passes start from one registry
  have hdeclare := Loader.passAll_declare_of_indented h []
  generalize hp : Loader.passAll Registry.declare [] ss = p at hdeclare
  generalize hp' : Loader.passAll Registry.declare [] ss' = p' at hdeclare
  obtain ⟨hreg, hfailure⟩ := hdeclare
  rw [loadRules, loadRules, Loader.result_load hp' rfl, Loader.result_load hp rfl, hfailure, hreg]
  cases hf : p.failure with
  | some e => exact .inl rfl
  | none =>
    have hsources : p.sources = ss.map (·.read.2) := by
      rw [← hp] at hf ⊢
      exact Loader.sources_passAll hf
    have hsources' : p'.sources = ss'.map (·.read.2) := by
      rw [← hfailure, ← hp'] at hf
      rw [← hp']
      exact Loader.sources_passAll hf
    rw [hsources, hsources']
    dsimp only
    split
    · rcases Loader.passAll_build_of_indented (Source.forall₂_indents_read h) p.registry with
        ⟨hreg', hfailure'⟩ | ⟨s, hs, k, hk, he⟩
      · rw [hreg', hfailure']
        refine .inl ?_
        split
        · rfl
        · exact Loader.complete_fst _ _ root _
      · obtain ⟨t, ht, rfl⟩ := List.mem_map.1 hs
        refine .inr ⟨t, ht, k, hk.of_read, ?_⟩
        rw [he, t.name_read]
    · exact .inl rfl

/-- What can be loaded has no content line that is `##empty` behind blanks. -/
theorem not_shiftsAt_of_loadRules {texts : List (List Text)}
    (h : List.Forall₂ Source.Holds ss texts) {root : Name} {g : Grammar}
    (hg : loadRules ss root = .ok g) {s : Source} (hs : s ∈ ss) {k : Nat} : ¬ s.ShiftsAt k := by
  rintro ⟨lines, hl, i, hi, line, hline, hshifted⟩
  obtain ⟨rs, ⟨⟨bss, hbss, hrs⟩, -, -⟩, -⟩ := ruleSet_of_loadRules h hg
  obtain ⟨ms, hms, hm⟩ := exists_of_forall₂ h s hs
  obtain ⟨bs, hbs, hlayout⟩ := exists_of_forall₂ hbss ms hms
  obtain rfl : lines = ms := by
    rcases List.mem_cons.1 hl with hnow | hlater
    · rw [hm.now] at hnow
      exact Except.ok.inj hnow
    · exact Except.ok.inj (hm.later _ hlater)
  -- the line lies in a block of the rule set, and no content of a block can be read off it
  have hmem : i ∈ bs.flatMap Item.ofBlock := by
    rw [← Item.scan_of_layout hlayout 0]
    exact List.mem_map_of_mem hi
  obtain ⟨b, hb, hib⟩ := List.mem_flatMap.1 hmem
  obtain ⟨r, -, hr⟩ := exists_of_forall₂ hrs b (List.mem_flatten.2 ⟨bs, hbs, hb⟩)
  have hcontent : ∃ ps, Content (fun n => decide (n ∈ Rule.names rs)) line ps := by
    simp only [Item.ofBlock, List.mem_cons, List.not_mem_nil, or_false] at hib
    rcases hib with rfl | rfl | rfl
    · cases hline
    · cases hline
      exact ⟨_, hr.natural⟩
    · cases hline
      exact ⟨_, hr.code⟩
  obtain ⟨ps, ⟨he, -⟩ | ⟨-, hread⟩⟩ := hcontent
  · exact hshifted.1 he
  · rw [hshifted.2] at hread
    cases hread

/-- Blanks in front of content lines make no difference to what is loaded, unless one of the lines
is `##empty`: what could be loaded can still be loaded if and only if no line is `##empty` behind
blanks, and else loading fails at such a line. -/
theorem loadRules_of_indented (h : List.Forall₂ Source.Indents ss ss') (root : Name) :
    ((∀ s ∈ ss', ∀ k, ¬ s.ShiftsAt k) → loadRules ss' root = loadRules ss root) ∧
    (loadRules ss' root = loadRules ss root ∨
      ∃ s ∈ ss', ∃ k, s.ShiftsAt k ∧ loadRules ss' root = .error (.shifted s.name k)) ∧
    ∀ g, loadRules ss root = .ok g →
      (loadRules ss' root = .ok g ↔ ∀ s ∈ ss', ∀ k, ¬ s.ShiftsAt k) := by
  have hsame := loadRules_eq_or_shifted h root
  have hunshifted : (∀ s ∈ ss', ∀ k, ¬ s.ShiftsAt k) →
      loadRules ss' root = loadRules ss root := by
    intro hnone
    rcases hsame with heq | ⟨s, hs, k, hk, -⟩
    · exact heq
    · exact absurd hk (hnone s hs k)
  refine ⟨hunshifted, hsame, fun g hg => ⟨fun hg' s hs k => ?_, fun hnone => ?_⟩⟩
  · obtain ⟨texts, htexts⟩ : ∃ texts, List.Forall₂ Source.Holds ss' texts := by
      refine exists_forall₂ fun t ht => ?_
      obtain ⟨s, -, hs⟩ := exists_of_forall₂ h.flip t ht
      obtain ⟨-, ms, -, hm, -⟩ := hs.indented
      exact ⟨ms, hm⟩
    exact not_shiftsAt_of_loadRules htexts hg' hs
  · rw [hunshifted hnone, hg]

/-- A tab and a space in front of the content lines of a block, and none in front of `##empty`. -/
theorem loadRules_of_indented_block :
    let lines : List Text :=
      [['#', 'a'], ['x', ' ', '_', 'b'], ['f'], ['#', 'b'], ['y'], Header.emptyLine]
    let lines' : List Text :=
      [['#', 'a'], ['\t', 'x', ' ', '_', 'b'], [' ', 'f'], ['#', 'b'], ['y'], Header.emptyLine]
    let s : Source := ⟨"rules", .ok lines, []⟩
    let s' : Source := ⟨"rules", .ok lines', []⟩
    s.Indents s' ∧ (∀ k, ¬ s'.ShiftsAt k) ∧ loadRules [s'] ['a'] = loadRules [s] ['a'] ∧
      (loadRules [s'] ['a']).map Grammar.names = .ok [['a'], ['b']] := by
  intro lines lines' s s'
  have hs : s.Holds lines := ⟨rfl, by simp [s]⟩
  have hs' : s'.Holds lines' := ⟨rfl, by simp [s']⟩
  have htab : ∀ c ∈ ['\t'], isBlank c := List.forall_mem_singleton.2 (by decide)
  have hspace : ∀ c ∈ [' '], isBlank c := List.forall_mem_singleton.2 (by decide)
  have hindented : Indented .header lines lines' :=
    .keep _ <| .indent _ (by decide) htab <| .indent _ (by decide) hspace <|
      .keep _ <| .keep _ <| .keep _ .nil
  have hindents : s.Indents s' := ⟨rfl, lines, lines', hs, hs', hindented⟩
  have hnames : (loadRules [s] ['a']).map Grammar.names = .ok [['a'], ['b']] := by decide +kernel
  have hnone : ∀ t ∈ [s'], ∀ k, ¬ t.ShiftsAt k := by
    rintro t ht k ⟨ls, hl, i, hi, line, hline, hshifted⟩
    rw [List.mem_singleton.1 ht] at hl
    obtain rfl : ls = lines' := Except.ok.inj (List.mem_singleton.1 hl)
    have hcontent : ∀ x ∈ Item.scanLines lines', ∀ line ∈ x.2.content?, ¬ line.IsShifted := by
      decide +kernel
    exact hcontent (k, i) hi line hline hshifted
  have hsame := (loadRules_of_indented (.cons hindents .nil) ['a']).1 hnone
  exact ⟨hindents, hnone s' List.mem_cons_self, hsame, hsame ▸ hnames⟩

/-- A space in front of `##empty` keeps a grammar from being loaded. -/
theorem loadRules_shifted_empty :
    let lines : List Text := ["#output".toList, Header.emptyLine, ['x']]
    let lines' : List Text := ["#output".toList, [' '] ++ Header.emptyLine, ['x']]
    let s : Source := ⟨"rules.iski", .ok lines, []⟩
    let s' : Source := ⟨"rules.iski", .ok lines', []⟩
    s.Indents s' ∧ (loadRules [s]).map Grammar.names = .ok [Name.output] ∧
      loadRules [s'] = .error (.load ⟨.doubleHash Header.emptyLine, "rules.iski", some 2⟩) := by
  intro lines lines' s s'
  have hs : s.Holds lines := ⟨rfl, by simp [s]⟩
  have hs' : s'.Holds lines' := ⟨rfl, by simp [s']⟩
  have hspace : ∀ c ∈ [' '], isBlank c := List.forall_mem_singleton.2 (by decide)
  have hindented : Indented .header lines lines' :=
    .keep _ <| .indent _ (by decide +kernel) hspace <| .keep _ .nil
  have hnames : (loadRules [s]).map Grammar.names = .ok [Name.output] := by decide +kernel
  have hfails : loadRules [s'] =
      .error (.load ⟨.doubleHash Header.emptyLine, "rules.iski", some 2⟩) :=
    Piece.map_eq_error (f := Grammar.names) (by decide +kernel)
  exact ⟨⟨rfl, lines, lines', hs, hs', hindented⟩, hnames, hfails⟩

end PairGrammar
