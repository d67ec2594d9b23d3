import PairGrammar.Proofs.Registry.Growing
import PairGrammar.Proofs.Registry.Stopping

/-!
# What a failing pass leaves behind

Where a pass fails, what it has done before stays: the names of all headers that it has read, and
the productions of all blocks that it has read to their end. Of the block in which it fails nothing
is left but the name that the first pass has entered.

* `enter_withNames`, `add_withRules`: what one step does to a registry with names or rules added.
* `follows_declareItem`, `follows_buildItem`: what a pass has made of the blocks that it has read.
* `exists_blocks_of_failure`: what is left where a pass fails.
-/

namespace PairGrammar

/-- The headers of blocks, and of the one that has been begun behind them. -/
def headersOf (bs : List Block) (o : Opened) : List Text := bs.map (·.header) ++ o.headers

/-- A header line introduces the name that it starts with. -/
def Header.Introduces (line : Text) (n : Name) : Prop := ∃ rest, readName line = .ok (n, rest)

/-- What the second pass holds of a block that has been begun: its lines, read. -/
def Opened.Holds (declared : Name → Bool) : Opened → Registry.Progress → Prop
  | .none, _ => True
  | .header line, q => ∃ h, Header.read line = .ok h ∧ q = .header h
  | .natural line line', q => ∃ h ps, Header.read line = .ok h ∧ Content declared line' ps ∧
      q = .natural h ps

namespace Registry

variable {reg reg' : Registry} {ns : List Name} {rs : List Rule} {r : Rule} {n : Name}
  {bs : List Block} {o : Opened} {file : String} {lines : List Text} {f : Failure}

/-! ### Registries with more names and more rules -/

/-- The registry, and behind it an empty draft for each new name, in the order in which the names
first occur. -/
def withNames (reg : Registry) (ns : List Name) : Registry :=
  reg ++ ((firsts ns).filter (!reg.declares ·)).map fun n => { name := n }

/-- The registry with the rules behind what the drafts of their names hold. -/
def withRules (reg : Registry) (rs : List Rule) : Registry :=
  reg.map fun d => { d with entries := d.entries ++ Rule.entries rs d.name }

theorem declares_eq_false_iff : reg.declares n = false ↔ n ∉ reg.names := by
  rw [← declares_iff, Bool.not_eq_true]

theorem withNames_nil (reg : Registry) : reg.withNames [] = reg := List.append_nil reg

theorem mem_names_withNames : n ∈ (reg.withNames ns).names ↔ n ∈ reg.names ∨ n ∈ ns := by
  rw [withNames, names, List.map_append, List.mem_append, List.map_map, ← names]
  by_cases hn : n ∈ reg.names
  · simp [hn]
  · have hd : reg.declares n = false := declares_eq_false_iff.2 hn
    simp [hn, hd, Function.comp_def]

theorem enter_withNames (reg : Registry) (ns : List Name) (n : Name) :
    (reg.withNames ns).enter n = reg.withNames (ns ++ [n]) := by
  unfold enter
  by_cases hd : n ∈ reg.names ∨ n ∈ ns
  · rw [if_pos (declares_iff.2 (mem_names_withNames.2 hd)), withNames, withNames, firsts_concat]
    by_cases hns : n ∈ ns
    · rw [if_pos hns]
    · have hn : reg.declares n := declares_iff.2 (hd.resolve_right hns)
      simp [hns, hn]
  · obtain ⟨hnew, hns⟩ := not_or.1 hd
    have hn : reg.declares n = false := declares_eq_false_iff.2 hnew
    rw [if_neg (fun h => hd (mem_names_withNames.1 (declares_iff.1 h))), withNames, withNames,
      firsts_concat, if_neg hns]
    simp [hn]

theorem withRules_nil (reg : Registry) : reg.withRules [] = reg := by
  simp [withRules]

@[simp] theorem names_withRules (reg : Registry) (rs : List Rule) :
    (reg.withRules rs).names = reg.names := by
  simp [withRules, names, Function.comp_def]

/-- A rule that is added stands behind the others. -/
theorem add_withRules (hreg : reg.names.Nodup)
    (ha : (reg.withRules rs).add r.header r.production = .ok reg') :
    reg' = reg.withRules (rs ++ [r]) := by
  obtain ⟨d, hd, -, -, rfl⟩ := add_eq_ok_iff.1 ha
  obtain ⟨hmem, hname⟩ := mem_of_find? hd
  obtain ⟨d₀, hd₀, rfl⟩ := List.mem_map.1 hmem
  rw [update, withRules, List.map_map]
  refine List.map_congr_left fun e he => ?_
  by_cases h : e.name = d₀.name
  · obtain rfl : e = d₀ := eq_of_name_eq hreg he hd₀ h
    have hr : r.header.name = e.name := hname.symm
    simp [Rule.entries_append, Rule.entries_singleton, hr, Rule.entry]
  · have hr : r.header.name ≠ e.name := fun hr => h (hr.symm.trans hname.symm)
    simp [Rule.entries_append, Rule.entries_singleton, hr, h]

/-! ### What a pass has made of the blocks that it has read -/

/-- The names of the headers have been entered, and nothing else has changed. -/
def Entered (reg : Registry) (bs : List Block) (o : Opened) (reg' : Registry) : Prop :=
  ∃ ns, List.Forall₂ Header.Introduces (headersOf bs o) ns ∧ reg' = reg.withNames ns

/-- The rules of the blocks have been added, and nothing else has changed. -/
def Extended (reg : Registry) (bs : List Block) (reg' : Registry) : Prop :=
  ∃ rs, List.Forall₂ (Block.Denotes reg.declares) bs rs ∧ reg' = reg.withRules rs

theorem follows_declareItem (reg : Registry) : Follows declareItem (Entered reg) where
  header := by
    rintro bs h _ reg' ⟨ns, hns, rfl⟩ hi
    rw [declareItem] at hi
    split at hi
    · cases hi
    · next n rest hn =>
      cases hi
      refine ⟨ns ++ [n], ?_, enter_withNames reg ns n⟩
      rw [headersOf, Opened.headers, List.append_nil] at hns
      exact List.rel_append hns (.cons ⟨rest, hn⟩ .nil)
  natural := by
    rintro bs h n _ reg' hreg hi
    cases hi
    exact hreg
  code := by
    rintro bs h n c _ reg' ⟨ns, hns, rfl⟩ hi
    cases hi
    refine ⟨ns, ?_, rfl⟩
    simpa [headersOf, Opened.headers] using hns

theorem follows_buildItem (hreg : reg.names.Nodup) :
    Follows buildItem fun bs o x => Extended reg bs x.1 ∧ o.Holds reg.declares x.2 where
  header := by
    rintro bs line ⟨reg', q⟩ x ⟨hext, -⟩ hi
    obtain ⟨h, hh, rfl⟩ := buildItem_header_eq_ok_iff.1 hi
    exact ⟨hext, h, hh, rfl⟩
  natural := by
    rintro bs line line' ⟨reg', q⟩ x ⟨⟨rs, hrs, rfl⟩, h, hh, hq⟩ hi
    obtain rfl : q = .header h := hq
    obtain ⟨ps, hps, rfl⟩ := buildItem_natural_eq_ok_iff.1 hi
    rw [declares_congr (names_withRules reg rs)] at hps
    exact ⟨⟨rs, hrs, rfl⟩, h, ps, hh, hps, rfl⟩
  code := by
    rintro bs line line' c ⟨reg', q⟩ x ⟨⟨rs, hrs, rfl⟩, h, ps, hh, hps, hq⟩ hi
    obtain rfl : q = .natural h ps := hq
    obtain ⟨qs, reg'', hqs, ha, rfl⟩ := buildItem_code_eq_ok_iff.1 hi
    rw [declares_congr (names_withRules reg rs)] at hqs
    have hrule : Block.Denotes reg.declares ⟨line, line', c⟩ ⟨h, ⟨ps, qs⟩⟩ := ⟨hh, hps, hqs⟩
    exact ⟨⟨rs ++ [⟨h, ⟨ps, qs⟩⟩], List.rel_append hrs (.cons hrule .nil),
      add_withRules (r := ⟨h, ⟨ps, qs⟩⟩) hreg ha⟩, trivial⟩

/-! ### Failures -/

/-- The blocks that have been read to their end lie before the line at which a pass is stopped. -/
theorem exists_underway_take {outcome : List Text → Option Failure} {k : Nat} {read : List Text}
    (hstop : StopsAt outcome file lines k read f) (hu : Underway read bs o) :
    ∃ p, Underway (lines.take (k - 1)) bs p := by
  rcases hstop.refused_or_cut with ⟨rfl, -⟩ | ⟨rfl, rfl, bs', o', which, hu', hmissing, -⟩
  · exact ⟨o, hu⟩
  · obtain ⟨-, rfl⟩ := hu.unique hu'
    apply hu.exists_take
    rintro rfl
    cases hmissing

/-- A failing pass keeps what it has done: the second one has added the rules of exactly the blocks
whose last line stands before the line at which it is stopped, and the first one has entered the
names of exactly the headers that it has read. -/
theorem exists_blocks_of_failure (hreg : reg.names.Nodup) (file : String) (lines : List Text) :
    (∀ f, (reg.build file lines).2 = some f → ∃ k read bs o,
      StopsAt (fun ls => (reg.build file ls).2) file lines k read f ∧
      Underway (lines.take (k - 1)) bs o ∧ Extended reg bs (reg.build file lines).1) ∧
    ∀ f, (reg.declare file lines).2 = some f → ∃ k read bs o,
      StopsAt (fun ls => (reg.declare file ls).2) file lines k read f ∧
      Underway read bs o ∧ Entered reg bs o (reg.declare file lines).1 := by
  constructor
  · intro f hf
    obtain ⟨k, read, hstop, q, e, hread⟩ := exists_stop_build hf
    have hstart : Extended reg [] reg := ⟨[], .nil, (withRules_nil reg).symm⟩
    obtain ⟨bs, o, hu, -, hext, -⟩ :=
      (follows_buildItem hreg).run misses_buildItem ⟨hstart, trivial⟩ hread
    obtain ⟨p, hp⟩ := exists_underway_take hstop hu
    exact ⟨k, read, bs, p, hstop, hp, hext⟩
  · intro f hf
    obtain ⟨k, read, hstop, e, hread⟩ := exists_stop_declare hf
    have hstart : Entered reg [] .none reg := ⟨[], .nil, (withNames_nil reg).symm⟩
    obtain ⟨bs, o, hu, -, hent⟩ :=
      (follows_declareItem reg).run misses_declareItem hstart hread
    exact ⟨k, read, bs, o, hstop, hu, hent⟩

/-- A whole block, and one that refers to an unknown name in its last line; lines that end behind a
header whose name is new. -/
theorem exists_blocks_of_failure_second :
    let reg : Registry := [{ name := ['a'] }]
    let refused : List Text := ["#a", "x", "y", "#a weight 2", "u", "_b"].map String.toList
    let cut : List Text := ["#b", "x", "y", "#c"].map String.toList
    reg.names.Nodup ∧
    (∃ k read bs o, StopsAt (fun ls => (reg.build "rules.iski" ls).2) "rules.iski" refused k read
        (.load ⟨.undefinedVariable ['b'], some "rules.iski", some 6⟩) ∧
      Underway (refused.take (k - 1)) bs o ∧
      Extended reg bs (reg.build "rules.iski" refused).1) ∧
    ∃ k read bs o, StopsAt (fun ls => (reg.declare "rules.iski" ls).2) "rules.iski" cut k read
        (.load ⟨.lineMissing .second, some "rules.iski", some 4⟩) ∧
      Underway read bs o ∧ Entered reg bs o (reg.declare "rules.iski" cut).1 := by
  intro reg refused cut
  have hreg : reg.names.Nodup := List.nodup_singleton _
  exact ⟨hreg, (exists_blocks_of_failure hreg _ _).1 _ (by decide +kernel),
    (exists_blocks_of_failure hreg _ _).2 _ (by decide +kernel)⟩

end Registry

end PairGrammar
