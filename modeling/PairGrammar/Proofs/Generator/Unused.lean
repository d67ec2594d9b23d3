import PairGrammar.Cli.Run
import PairGrammar.Proofs.Evaluation.Reach
import PairGrammar.Proofs.Generator.History
import PairGrammar.Proofs.Grammar.Visiting
import PairGrammar.Proofs.Loader.Origin

/-!
# Variables that are never used

A generator evaluates the root of its grammar. A report that starts at the root as well names
variables that it never turns to, so another grammar without them, or with others in their places,
gives the same answers. A report that starts at another name is right for the root only if that name
and the root lead to each other; such a name is `output`, at which a report starts if it is asked
for with a grammar alone.

* `reports_unreachable_iff`: for which names a report is right.
* `Generator.next_eq_of_reports`: what a right report leaves out makes no difference.
* `root_of_loadRules`: the root of a loaded grammar is the one it was asked for with.
* `report_of_loadRules`: the two reports on a loaded grammar.
* `Cli.runCheck_of_loadRules`: what the command line warns of.
-/

namespace PairGrammar

open Relation (ReflTransGen)

namespace Grammar

variable {g : Grammar} {start other : Name}

theorem mem_names_iff : start ∈ g.names ↔ (g.find? start).isSome := by
  constructor
  · exact isSome_find?_of_mem_names
  · intro h
    obtain ⟨v, hv⟩ := Option.isSome_iff_exists.1 h
    obtain ⟨hmem, hname⟩ := mem_of_find? hv
    exact List.mem_map.2 ⟨v, hmem, hname⟩

/-- A report that starts at a name without a variable fails. -/
theorem unreachable_of_find?_eq_none (h : g.find? start = none) :
    g.unreachable start = .error start := by
  have hsearch : g.reachable start = .error start := by
    rw [reachable, search]
    split
    · rfl
    · next v hv =>
      rw [h] at hv
      cases hv
  rw [unreachable, hsearch]
  rfl

/-- A report that starts at another name is right if and only if both names lead to each other. -/
theorem reports_unreachable_iff (hg : g.IsClosed) (hs : (g.find? start).isSome) :
    g.Reports start (g.unreachable other) ↔
      ReflTransGen g.RefersTo start other ∧ ReflTransGen g.RefersTo other start := by
  constructor
  · rintro ⟨rest, hrest, hstart⟩
    have hother : (g.find? other).isSome := by
      by_contra hnone
      rw [unreachable_of_find?_eq_none (Option.not_isSome_iff_eq_none.1 hnone)] at hrest
      cases hrest
    obtain ⟨rest', hrest', hleft⟩ := reports_unreachable hg hother
    rw [hrest] at hrest'
    cases hrest'
    have hsame : ∀ n ∈ g.names,
        (ReflTransGen g.RefersTo start n ↔ ReflTransGen g.RefersTo other n) := by
      intro n hn
      have hiff := (hstart n).symm.trans (hleft n)
      rw [and_congr_right_iff] at hiff
      exact not_iff_not.1 (hiff hn)
    exact ⟨(hsame other (mem_names_iff.2 hother)).2 .refl,
      (hsame start (mem_names_iff.2 hs)).1 .refl⟩
  · rintro ⟨hto, hback⟩
    have hother : (g.find? other).isSome :=
      (leads_iff_reflTransGen.2 hto).isSome_find? hg hs
    obtain ⟨rest, hrest, hleft⟩ := reports_unreachable hg hother
    refine ⟨rest, hrest, fun n => (hleft n).trans ?_⟩
    exact and_congr_right fun _ => not_congr ⟨hto.trans, hback.trans⟩

theorem Reports.not_mem {rest : List Name} (h : g.Reports start (.ok rest))
    (hn : ReflTransGen g.RefersTo start other) : other ∉ rest := by
  obtain ⟨rest', hrest, hleft⟩ := h
  cases hrest
  intro hmem
  exact ((hleft other).1 hmem).2 hn

/-- An evaluation turns to no variable that is reported for its name. -/
theorem not_mem_of_chosen {ρ : Type} [Dice ρ] {rest : List Name} (h : g.Reports start (.ok rest))
    (d : Depth) (r : ρ) : ∀ c ∈ g.chosen start d r, c.owner.name ∉ rest :=
  fun c hc => h.not_mem (leads_iff_reflTransGen.1 (leads_of_chosen c hc))

end Grammar

/-- What is reported for the root makes no difference to a generator: it answers as one with any
other grammar that has this root and agrees on the rest. -/
theorem Generator.next_eq_of_reports {ρ : Type} [Dice ρ] {gen : Generator ρ} {g g' : Grammar}
    {rest : List Name} (hgen : gen.grammar = some g) (hrest : g.Reports g.root (.ok rest))
    (hroot : g'.root = g.root) (hagree : ∀ n ∉ rest, g'.find? n = g.find? n) :
    ({ gen with grammar := some g' } : Generator ρ).next =
      (gen.next.1, { gen.next.2 with grammar := some g' }) := by
  have hleads : ∀ m, g.Leads g.root m → g'.find? m = g.find? m :=
    fun m hm => hagree m (hrest.not_mem (Grammar.leads_iff_reflTransGen.1 hm))
  have heq : g'.evaluate g'.root { limit := gen.limit } gen.dice =
      g.evaluate g.root { limit := gen.limit } gen.dice := by
    rw [hroot]
    exact evaluate_eq_of_leads hleads _ _
  unfold next
  rw [hgen]
  dsimp only
  rw [heq]

/-! ### Loaded grammars -/

theorem Grammar.root_of_ofVariables? {vs : List Variable} {root : Name} {g : Grammar}
    (h : ofVariables? vs root = .ok g) : g.root = root := by
  unfold ofVariables? at h
  split at h
  · cases h
    rfl
  · cases h

/-- The root of a loaded grammar is the one that it was asked for with. -/
theorem root_of_loadRules {ss : List Source} {root : Name} {g : Grammar}
    (h : loadRules ss root = .ok g) : g.root = root := by
  obtain ⟨p, q, -, -, -, -, -, hc⟩ := Loader.load_eq_ok_iff.1 h
  unfold Loader.complete at hc
  split at hc
  · cases hc
  · unfold Grammar.ofDrafts at hc
    dsimp only at hc
    cases hvs : (Grammar.finishAll q.registry).1 with
    | error e =>
      rw [hvs] at hc
      cases hc
    | ok vs =>
      rw [hvs] at hc
      exact Grammar.root_of_ofVariables? hc

/-- A report for the root of a loaded grammar names the variables to which no references lead from
the root. No generator turns to any of them, and none answers otherwise if they are changed or taken
out. A report for the name `output` fails if there is no such variable; else it names the variables
to which no references lead from `output`, and these are the right ones for the root if and only if
the root and `output` lead to each other. -/
theorem report_of_loadRules {ρ : Type} [Dice ρ] {ss : List Source} {root : Name} {g : Grammar}
    (hg : loadRules ss root = .ok g) :
    g.root = root ∧
    (∃ rest, g.unreachable g.root = .ok rest ∧
      (∀ n, n ∈ rest ↔ n ∈ g.names ∧ ¬ ReflTransGen g.RefersTo g.root n) ∧
      ∀ gen : Generator ρ, gen.grammar = some g →
        (∀ c ∈ g.chosen g.root { limit := gen.limit } gen.dice, c.owner.name ∉ rest) ∧
        ∀ g' : Grammar, g'.root = g.root → (∀ n ∉ rest, g'.find? n = g.find? n) →
          ({ gen with grammar := some g' } : Generator ρ).next =
            (gen.next.1, { gen.next.2 with grammar := some g' })) ∧
    (Name.output ∉ g.names → g.unreachable Name.output = .error Name.output) ∧
    (Name.output ∈ g.names → g.Reports Name.output (g.unreachable Name.output)) ∧
    (g.Reports g.root (g.unreachable Name.output) ↔
      ReflTransGen g.RefersTo g.root Name.output ∧ ReflTransGen g.RefersTo Name.output g.root) := by
  have hclosed : g.IsClosed := isClosed_of_loadRules hg
  obtain ⟨rest, hrest, hleft⟩ := Grammar.reports_unreachable hclosed g.isSome_find?_root
  have hreports : g.Reports g.root (.ok rest) := ⟨rest, rfl, hleft⟩
  refine ⟨root_of_loadRules hg, ⟨rest, hrest, hleft, fun gen hgen => ⟨?_, fun g' => ?_⟩⟩,
    fun h => ?_, fun h => ?_, ?_⟩
  · exact Grammar.not_mem_of_chosen hreports _ _
  · exact Generator.next_eq_of_reports hgen hreports
  · rw [Grammar.mem_names_iff, Option.not_isSome_iff_eq_none] at h
    exact Grammar.unreachable_of_find?_eq_none h
  · exact Grammar.reports_unreachable hclosed (Grammar.mem_names_iff.1 h)
  · exact Grammar.reports_unreachable_iff hclosed g.isSome_find?_root

/-- The root refers to `b` and to itself, and `output` to neither of them. -/
theorem report_of_loadRules_two :
    let ss : List Source := [.ofText "#output\nx\ny\n#a\n_b\n_a z\n#b\nu\nv".toList]
    ∃ g, loadRules ss ['a'] = .ok g ∧ g.root = ['a'] ∧ g.unreachable ['a'] = .ok [Name.output] ∧
      (∀ gen : Generator Script, gen.grammar = some g →
        (∀ c ∈ g.chosen ['a'] { limit := gen.limit } gen.dice, c.owner.name ∉ [Name.output]) ∧
        ∀ g' : Grammar, g'.root = ['a'] → (∀ n ∉ [Name.output], g'.find? n = g.find? n) →
          ({ gen with grammar := some g' } : Generator Script).next =
            (gen.next.1, { gen.next.2 with grammar := some g' })) ∧
      Name.output ∈ g.names ∧ g.Reports Name.output (.ok [['a'], ['b']]) ∧
      ¬ ReflTransGen g.RefersTo Name.output ['a'] := by
  intro ss
  have hload : (loadRules ss ['a']).map (fun g =>
      (g.names, g.unreachable ['a'], g.unreachable Name.output)) =
      .ok ([Name.output, ['a'], ['b']], .ok [Name.output], .ok [['a'], ['b']]) := by decide +kernel
  obtain ⟨g, hg, hparts⟩ := Piece.map_eq_ok hload
  obtain ⟨hnames, hroots, houtputs⟩ :
      g.names = [Name.output, ['a'], ['b']] ∧ g.unreachable ['a'] = .ok [Name.output] ∧
        g.unreachable Name.output = .ok [['a'], ['b']] := by simpa using hparts.symm
  have hmem : Name.output ∈ g.names := by
    rw [hnames]
    exact List.mem_cons_self
  obtain ⟨hroot, ⟨rest, hrest, -, hgen⟩, -, hsome, -⟩ := report_of_loadRules (ρ := Script) hg
  rw [hroot] at hrest hgen
  cases hroots.symm.trans hrest
  have houtput : g.Reports Name.output (.ok [['a'], ['b']]) := by
    rw [← houtputs]
    exact hsome hmem
  exact ⟨g, hg, hroot, hroots, hgen, hmem, houtput, fun h => houtput.not_mem h List.mem_cons_self⟩

/-- A report on a grammar alone names the root and what the root makes use of, or it fails. -/
theorem report_on_grammar_alone :
    let ss : List Source := [.ofText "#output\nx\ny\n#a\n_b\nz\n#b\nu\nv".toList]
    let ss' : List Source := [.ofText "#a\nx\ny".toList]
    (∃ g, loadRules ss ['a'] = .ok g ∧ g.unreachable Name.output = .ok [['a'], ['b']] ∧
      (g.chosen g.root {} (Script.ofList [0] false)).map (·.owner.name) = [['a'], ['b']] ∧
      ¬ g.Reports g.root (g.unreachable Name.output)) ∧
    ∃ g, loadRules ss' ['a'] = .ok g ∧ g.unreachable Name.output = .error Name.output ∧
      ¬ g.Reports g.root (g.unreachable Name.output) := by
  intro ss ss'
  have hload : (loadRules ss ['a']).map (fun g => (g.root, g.unreachable Name.output,
      (g.chosen g.root {} (Script.ofList [0] false)).map (·.owner.name))) =
      .ok (['a'], .ok [['a'], ['b']], [['a'], ['b']]) := by decide +kernel
  have hload' : (loadRules ss' ['a']).map (·.unreachable Name.output) =
      .ok (.error Name.output) := by decide +kernel
  obtain ⟨g, hg, hparts⟩ := Piece.map_eq_ok hload
  obtain ⟨hroot, hreport, hchosen⟩ : g.root = ['a'] ∧
      g.unreachable Name.output = .ok [['a'], ['b']] ∧
      (g.chosen g.root {} (Script.ofList [0] false)).map (·.owner.name) = [['a'], ['b']] := by
    simpa using hparts.symm
  obtain ⟨g', hg', hreport'⟩ := Piece.map_eq_ok hload'
  refine ⟨⟨g, hg, hreport, hchosen, fun h => ?_⟩, g', hg', hreport'.symm, fun h => ?_⟩
  · rw [hreport] at h
    exact h.not_mem .refl (by rw [hroot]; exact List.mem_cons_self)
  · obtain ⟨rest, hrest, -⟩ := h
    rw [← hreport'] at hrest
    cases hrest

/-! ### The command line -/

/-- The rule files of a folder are loaded with the root `output`, so the command line can report on
the grammar alone: it warns of the variables to which no references lead from the root. -/
theorem Cli.runCheck_of_loadRules {w : World} {directory : String} {g : Grammar} {notes : List Note}
    (hfolder : w.tree.isFolder directory) (hload : w.tree.loadRules directory = (.ok g, notes))
    (level : Option LogLevel) :
    ∃ rest : List Name, (∀ n, n ∈ rest ↔ n ∈ g.names ∧ ¬ ReflTransGen g.RefersTo g.root n) ∧
      runCheck w directory level =
        leave w 0 (logLines level notes ++ [.out (g.describe ++ "\n")] ++ rest.map fun n =>
          errorLine "check"
            s!"warning: variable '{n.string}' is not reachable from '{g.root.string}'") := by
  obtain ⟨ss, hss⟩ := FileTree.exists_loadRules (congrArg Prod.fst hload)
  have hroot : g.root = Name.output := root_of_loadRules hss
  obtain ⟨rest, hrest, hleft⟩ :=
    Grammar.reports_unreachable (isClosed_of_loadRules hss) g.isSome_find?_root
  refine ⟨Loader.sortNames rest, fun n => ?_, ?_⟩
  · rw [← hleft, Loader.sortNames, List.mem_mergeSort]
  · rw [hroot] at hrest
    unfold runCheck
    simp only [hfolder, hload, hrest, Bool.not_true, Bool.false_eq_true, if_false]

end PairGrammar
