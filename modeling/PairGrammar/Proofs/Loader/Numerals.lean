import PairGrammar.Proofs.Loader.Agreement
import PairGrammar.Proofs.Loader.Changing

/-!
# Numerals of any length

The numeral of a header is read exactly, leading zeros included, or is too big, and then the header
is at fault. This holds up to the number of digits that are read at all. A longer numeral ends the
load with a failure of its own, whatever its value is, zero or not.

* `Registry.build_of_long`: the second pass ends at a header with such a numeral.
* `loadRules_of_long`: so does loading, once the first pass has come through.
* `weightedLine_outcomes`: what becomes of a header with a numeral, and of loading it.
-/

namespace PairGrammar

open Header (weightedLine)

variable {n root : Name} {s t d natural code : Text} {lines : List Text} {src : Source}
  {ss : List Source}

theorem Numeral.value_replicate_zero (k : Nat) : value (List.replicate k '0') = 0 := by
  induction k with
  | zero => rfl
  | succ k ih =>
    -- a leading zero leaves the number that the digits behind it go on from
    show valueFrom (10 * 0 + digitValue '0') (List.replicate k '0') = 0
    exact ih

theorem Numeral.isNumeral_replicate {k : Nat} (hk : 0 < k) {c : Char} (hc : c.isDigit) :
    IsNumeral (List.replicate k c) where
  ne_nil := by
    intro h
    have hlength := congrArg List.length h
    rw [List.length_replicate, List.length_nil] at hlength
    omega
  isDecimal := by simp [Numeral.isDecimal, hc]

/-! ### Where the second pass ends -/

theorem Registry.build_of_long (hn : n.IsValid) (hs : s.IsGap) (ht : t.IsGap)
    (hd : Numeral.IsNumeral d) (hlong : Numeral.maxLength < d.length) (reg : Registry)
    (file : String) (lines : List Text) :
    (reg.build file (weightedLine n s t d :: lines)).2 = some (.longNumeral d.length) := by
  have hread := Header.read_weightedLine hn hs ht hd
  rw [if_pos hlong] at hread
  rw [build, Item.scanLines, Item.scan]
  dsimp only
  rw [Header.trimRight_weightedLine n s t hd, if_pos (Header.isHeader_weightedLine hn s t d),
    through]
  simp only [buildItem, hread]
  rfl

/-- A header with a numeral that is too long, at the start of the first source, ends the load. -/
theorem loadRules_of_long (hn : n.IsValid) (hs : s.IsGap) (ht : t.IsGap)
    (hd : Numeral.IsNumeral d) (hlong : Numeral.maxLength < d.length)
    (hsrc : src.read.2.now = .ok (weightedLine n s t d :: lines))
    (hpf : (Loader.passAll Registry.declare [] (src :: ss)).failure = none)
    (hroot : (Loader.passAll Registry.declare [] (src :: ss)).registry.declares root) :
    loadRules (src :: ss) root = .error (.longNumeral d.length) := by
  refine Loader.load_eq_error rfl hpf hroot ?_
  dsimp only
  generalize (Loader.passAll Registry.declare [] (src :: ss)).registry = reg
  have hpass : Loader.passSource Registry.build reg src.read.2 =
      (src.read.2.read.2, reg.build src.read.2.name (weightedLine n s t d :: lines)) := by
    rw [Loader.passSource_eq, hsrc]
  have hbuild := Registry.build_of_long hn hs ht hd hlong reg src.read.2.name lines
  rw [Loader.sources_passAll hpf, List.map_cons, Loader.passAll, hpass]
  generalize reg.build src.read.2.name (weightedLine n s t d :: lines) = x at hbuild ⊢
  obtain ⟨reg', e⟩ := x
  cases hbuild
  rfl

/-- The first pass comes through over a single block, and enters its name. -/
theorem Loader.declare_block (hn : n.IsValid) (hs : s.IsGap) (hd : Numeral.IsNumeral d)
    (hnatural : natural.trimRight ≠ []) (hcode : code.trimRight ≠ [])
    (hsrc : src.Holds [weightedLine n s t d, natural, code]) :
    (passAll Registry.declare [] [src]).failure = none ∧
      (passAll Registry.declare [] [src]).registry.declares n := by
  have htrim := Header.trimRight_weightedLine n s t hd
  let b : Block := ⟨(weightedLine n s t d).trimRight, natural.trimRight, code.trimRight⟩
  have hheader : Header.isHeader b.header := by
    show Header.isHeader (weightedLine n s t d).trimRight
    rw [htrim]
    exact Header.isHeader_weightedLine hn s t d
  have hintroduces : b.Introduces n := by
    refine ⟨s ++ (Header.weightWord ++ (t ++ d)), ?_⟩
    show Header.readName (weightedLine n s t d).trimRight = _
    rw [htrim]
    exact Header.readName_append hn (hs.isCut _)
  have hblock : Registry.declareBlock [] b = .ok (Registry.enter [] n) :=
    Registry.declareBlock_eq_ok_iff.2 ⟨n, hintroduces, rfl⟩
  have hpass : (passAll Registry.declare [] [src]).failure = none ∧
      (passAll Registry.declare [] [src]).registry = Registry.enter [] n := by
    apply (passAll_declare_iff (.cons hsrc .nil)).2
    exact ⟨[[b]], .cons (.block hheader hnatural hcode .nil) .nil,
      Registry.foldlM_cons_eq_ok.2 ⟨_, hblock, rfl⟩⟩
  refine ⟨hpass.1, ?_⟩
  rw [hpass.2]
  exact Registry.declares_iff.2 (Registry.mem_names_enter.2 (.inr rfl))

/-! ### Headers with a numeral -/

/-- A numeral of no more digits than are read gives exactly its value to the header, or is reported
as too big, and any failure of loading that is no load error is due to something else. A longer one
ends both reading and loading with a failure that is no load error. -/
theorem weightedLine_outcomes (hn : n.IsValid) (hs : s.IsGap) (ht : t.IsGap)
    (hd : Numeral.IsNumeral d) :
    (d.length ≤ Numeral.maxLength →
      (Numeral.value d ≤ maxWeight →
        Header.read (weightedLine n s t d) = .ok ⟨n, Numeral.value d⟩) ∧
      (maxWeight < Numeral.value d →
        Header.read (weightedLine n s t d) = .error (.ofFault (.weightTooBig d))) ∧
      ∀ (ss : List Source) (root : Name) (e : Failure), loadRules ss root = .error e →
        e.IsLoad ∨ Escape ss ((secondNumerals ss).filter (· ≠ d)) e) ∧
    (Numeral.maxLength < d.length →
      Header.read (weightedLine n s t d) = .error (.longNumeral d.length) ∧
      ∀ (src : Source) (lines : List Text) (ss : List Source) (root : Name),
        src.read.2.now = .ok (weightedLine n s t d :: lines) →
        (Loader.passAll Registry.declare [] (src :: ss)).failure = none →
        (Loader.passAll Registry.declare [] (src :: ss)).registry.declares root →
        loadRules (src :: ss) root = .error (.longNumeral d.length)) := by
  have hread := Header.read_weightedLine hn hs ht hd
  refine ⟨fun hshort => ⟨?_, ?_, ?_⟩, fun hlong => ⟨?_, ?_⟩⟩
  · intro hw
    rw [hread, if_neg (by omega), if_neg (by omega)]
  · intro hbig
    rw [hread, if_neg (by omega), if_pos hbig]
  · intro ss root e he
    rcases escape_of_loadRules he with hload | hescape
    · exact .inl hload
    · right
      cases hescape with
      | reading hs he => exact .reading hs he
      | newName hn hnew => exact .newName hn hnew
      | @numeral w hw hlong =>
        -- the numeral that is too long is longer than this one
        have hne : w ≠ d := by
          rintro rfl
          omega
        exact .numeral (List.mem_filter.2 ⟨hw, by simpa using hne⟩) hlong
  · rw [hread, if_pos hlong]
  · intro src lines ss root hsrc hpf hroot
    exact loadRules_of_long hn hs ht hd hlong hsrc hpf hroot

/-- Zeros in front do not count, one more than the greatest weight is too big, and where nothing
else is at fault that is reported. Of a numeral that is too long there is no report. -/
theorem weightedLine_outcomes_lengths :
    let line : Text → Text := weightedLine ['b'] [' '] ['\t']
    let big : Text := "9223372036854775808".toList
    let long : Text := List.replicate 5000 '7'
    let source : Text → Source := fun d => ⟨"rules", .ok [line d, ['x'], ['y']], []⟩
    Header.read (line ['0', '0', '7']) = .ok ⟨['b'], 7⟩ ∧
      Header.read (line big) = .error (.ofFault (.weightTooBig big)) ∧
      (∃ e, loadRules [source big] ['b'] = .error e ∧ e.IsLoad) ∧
      loadRules [source long] ['b'] = .error (.longNumeral 5000) := by
  intro line big long source
  have hb : Name.IsValid ['b'] := ⟨rfl, List.all_eq_true.1 rfl⟩
  have hs : Text.IsGap [' '] := Text.isGap_of_all (by decide) (by decide)
  have ht : Text.IsGap ['\t'] := Text.isGap_of_all (by decide) (by decide)
  have hbig : Numeral.IsNumeral big := ⟨by decide, by decide⟩
  have hlong : Numeral.IsNumeral long := Numeral.isNumeral_replicate (by decide) (by decide)
  have hlength : long.length = 5000 := List.length_replicate
  have hseven := (weightedLine_outcomes hb hs ht (d := ['0', '0', '7']) ⟨by decide, by decide⟩).1
    (by decide)
  obtain ⟨-, hreport, hload⟩ := (weightedLine_outcomes hb hs ht hbig).1 (by decide)
  refine ⟨hseven.1 (by decide), hreport (by decide), ?_, ?_⟩
  · have hfails : loadRules [source big] ['b'] =
        .error (.load ⟨.weightTooBig big, "rules", some 1⟩) := by
      with_unfolding_all rfl
    refine ⟨_, hfails, ?_⟩
    rcases hload _ _ _ hfails with hload | hescape
    · exact hload
    · cases hescape with
      | reading hs he =>
        rw [List.mem_singleton.1 hs] at he
        rcases he with he | he <;> cases he
  · have hholds : (source long).Holds [line long, ['x'], ['y']] := ⟨rfl, by simp [source]⟩
    obtain ⟨hpf, hroot⟩ :=
      Loader.declare_block hb hs hlong (by decide) (by decide) hholds
    rw [← hlength]
    exact ((weightedLine_outcomes hb hs ht hlong).2 (by rw [hlength]; decide)).2 (source long) _ []
      ['b'] rfl hpf hroot

/-- Zeros alone stand for a weight in range, but too many of them are not read, and loading the
header ends with a failure that is no load error. -/
theorem loadRules_zeros :
    let d : Text := List.replicate 4301 '0'
    let line : Text := weightedLine Name.output [' '] [' '] d
    Numeral.IsNumeral d ∧ Numeral.value d ≤ maxWeight ∧
      Header.read line ≠ .ok ⟨Name.output, Numeral.value d⟩ ∧
      ∃ e, loadRules [⟨"rules.iski", .ok [line, ['x'], ['y']], []⟩] = .error e ∧ ¬ e.IsLoad := by
  intro d line
  have hn : Name.output.IsValid := ⟨rfl, List.all_eq_true.1 rfl⟩
  have hs : Text.IsGap [' '] := Text.isGap_of_all (by decide) (by decide)
  have hd : Numeral.IsNumeral d := Numeral.isNumeral_replicate (by decide) (by decide)
  have hlong : Numeral.maxLength < d.length := by
    rw [List.length_replicate]
    decide
  let src : Source := ⟨"rules.iski", .ok [line, ['x'], ['y']], []⟩
  have hholds : src.Holds [line, ['x'], ['y']] := ⟨rfl, by simp [src]⟩
  obtain ⟨hpf, hroot⟩ := Loader.declare_block hn hs hd (by decide) (by decide) hholds
  refine ⟨hd, by rw [Numeral.value_replicate_zero]; exact Nat.zero_le _, ?_, .longNumeral d.length,
    loadRules_of_long hn hs hs hd hlong rfl hpf hroot, ?_⟩
  · rw [Header.read_weightedLine hn hs hs hd, if_pos hlong]
    simp
  · rintro ⟨f, hf⟩
    cases hf

end PairGrammar
