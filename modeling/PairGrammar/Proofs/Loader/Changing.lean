import PairGrammar.Proofs.Loader.Origin
import PairGrammar.Proofs.Registry.Numerals

/-!
# Sources that change between the passes

What a source holds may change between its two readings in any way. Loading then still ends with a
grammar or with a load error, with one exception: a name that no header had at the first readings
and that a header has at a second one. Nobody has entered it, so its draft is not found, and that
failure is none of the rule file. Neither is a reading that fails, or a numeral that is too long.

* `passAll_fails`: how a pass over all sources fails, given how it fails on each.
* `load_error_cases`: all that loading can fail by.
* `complete_eq_error`: behind both passes it fails only at a name that has lost all its productions.
* `escape_of_loadRules`: how loading fails, whatever the sources are.
* `loadRules_of_readable`: how it ends where all readings can be read.
-/

namespace PairGrammar

/-- The names that the headers of a reading introduce. -/
def Reading.names : Reading → List Name
  | .error _ => []
  | .ok lines => introducedNames lines

/-- The names that headers of the first readings introduce. -/
def firstNames (ss : List Source) : List Name := ss.flatMap (·.now.names)

/-- The names that headers of the second readings introduce. -/
def secondNames (ss : List Source) : List Name := firstNames (ss.map (·.read.2))

/-- The numerals that the headers of a reading have for their weights. -/
def Reading.numerals : Reading → List Text
  | .error _ => []
  | .ok lines => weightNumerals lines

/-- The numerals for weights at the second readings. -/
def secondNumerals (ss : List Source) : List Text :=
  (ss.map (·.read.2)).flatMap (·.now.numerals)

/-- Where one of the first two readings of the source fails, it is with a load error. The numerals
for weights at the second one are not too long. -/
structure Source.IsReadable (s : Source) : Prop where
  first : ∀ e, s.now = .error e → e.IsLoad
  second : ∀ e, s.read.2.now = .error e → e.IsLoad
  short : ∀ lines, s.read.2.now = .ok lines →
    ∀ w ∈ weightNumerals lines, w.length ≤ Numeral.maxLength

namespace Loader

/-! ### Passes over all sources -/

theorem passSource_fails {pass : Pass} {F : Failure → Prop} {reg : Registry} {s : Source}
    (hread : ∀ e, s.now = .error e → F e)
    (hpass : ∀ lines, s.now = .ok lines → ∀ e, (pass reg s.name lines).2 = some e → F e)
    {e : Failure} (he : (passSource pass reg s).2.2 = some e) : F e := by
  rw [passSource_eq] at he
  cases hnow : s.now with
  | error f =>
    rw [hnow] at he
    cases he
    exact hread e hnow
  | ok lines =>
    rw [hnow] at he
    exact hpass lines hnow e he

/-- What a pass fails by on each source, where the registry is as other passes leave it, the pass
over all sources fails by. -/
theorem passAll_fails {pass : Pass} {P : Registry → Prop} {F : Failure → Prop} {ss : List Source}
    (hkeep : ∀ s ∈ ss, ∀ reg, P reg → P (passSource pass reg s).2.1)
    (hfail : ∀ s ∈ ss, ∀ reg, P reg → ∀ e, (passSource pass reg s).2.2 = some e → F e)
    {reg : Registry} (hr : P reg) {e : Failure} (he : (passAll pass reg ss).failure = some e) :
    F e := by
  induction ss generalizing reg with
  | nil => cases he
  | cons s ss ih =>
    obtain ⟨hks, hkss⟩ := List.forall_mem_cons.1 hkeep
    obtain ⟨hfs, hfss⟩ := List.forall_mem_cons.1 hfail
    have hP := hks reg hr
    have hF := hfs reg hr
    rw [passAll] at he
    generalize passSource pass reg s = x at hP hF he
    obtain ⟨s', reg', _ | e'⟩ := x
    · exact ih hkss hfss hP he
    · cases he
      exact hF e rfl

/-- A pass that comes through leaves each source as it is behind one reading. -/
theorem sources_passAll {pass : Pass} {reg : Registry} {ss : List Source}
    (h : (passAll pass reg ss).failure = none) :
    (passAll pass reg ss).sources = ss.map (·.read.2) := by
  induction ss generalizing reg with
  | nil => rfl
  | cons s ss ih =>
    have hread : (passSource pass reg s).1 = s.read.2 := by rw [passSource_eq]
    rw [passAll] at h ⊢
    generalize passSource pass reg s = x at hread h ⊢
    obtain ⟨s', reg', _ | e⟩ := x
    · rw [List.map_cons, ← ih h, ← hread]
    · cases h

/-- The first pass, when it comes through, has entered the names of all first readings. -/
theorem firstNames_subset {ss : List Source} {reg : Registry}
    (h : (passAll Registry.declare reg ss).failure = none) :
    reg.names ⊆ (passAll Registry.declare reg ss).registry.names ∧
      firstNames ss ⊆ (passAll Registry.declare reg ss).registry.names := by
  induction ss generalizing reg with
  | nil => exact ⟨List.Subset.refl _, List.nil_subset _⟩
  | cons s ss ih =>
    rw [passAll] at h ⊢
    have hnames : ∀ reg', (passSource Registry.declare reg s).2 = (reg', none) →
        reg.names ⊆ reg'.names ∧ s.now.names ⊆ reg'.names := by
      intro reg' hx
      rw [passSource_eq] at hx
      cases hnow : s.now with
      | error e =>
        rw [hnow] at hx
        cases hx
      | ok lines =>
        rw [hnow] at hx
        exact Registry.names_of_declare hx
    generalize passSource Registry.declare reg s = x at hnames h ⊢
    obtain ⟨s', reg', _ | e⟩ := x
    · obtain ⟨hreg, hs⟩ := hnames reg' rfl
      obtain ⟨hreg', hss⟩ := ih h
      refine ⟨fun n hn => hreg' (hreg hn), ?_⟩
      unfold firstNames
      rw [List.flatMap_cons, List.append_subset]
      exact ⟨fun n hn => hreg' (hs hn), hss⟩
    · cases h

/-- The first pass fails by load errors, or because a source cannot be read. -/
theorem declare_fails {ss : List Source} {reg : Registry} {e : Failure}
    (he : (passAll Registry.declare reg ss).failure = some e) :
    e.IsLoad ∨ ∃ s ∈ ss, s.now = .error e := by
  let F : Failure → Prop := fun e => e.IsLoad ∨ ∃ s ∈ ss, s.now = .error e
  apply passAll_fails (P := fun _ => True) (F := F) (fun _ _ _ _ => trivial) ?_ trivial he
  intro s hs reg _ f hf
  apply passSource_fails (F := F) ?_ ?_ hf
  · intro e hnow
    exact .inr ⟨s, hs, hnow⟩
  · intro lines _ e hd
    exact .inl (Registry.isLoad_of_declare hd)

/-- The second pass fails by load errors, at a name that has not been entered, at a numeral that is
too long, or because a source cannot be read. -/
theorem build_fails {ss : List Source} {reg : Registry} {e : Failure}
    (he : (passAll Registry.build reg ss).failure = some e) :
    Registry.Stops reg.names (firstNames ss) e ∨ e.IsLong (ss.flatMap (·.now.numerals)) ∨
      ∃ s ∈ ss, s.now = .error e := by
  let F : Failure → Prop := fun e => Registry.Stops reg.names (firstNames ss) e ∨
    e.IsLong (ss.flatMap (·.now.numerals)) ∨ ∃ s ∈ ss, s.now = .error e
  apply passAll_fails (P := fun r => r.names = reg.names) (F := F) ?_ ?_ rfl he
  · intro s _ r hr
    exact passSource_keeps (P := fun r => r.names = reg.names) hr
      fun lines _ => (Registry.names_build r s.name lines).trans hr
  · intro s hs r hr f hf
    apply passSource_fails (F := F) ?_ ?_ hf
    · intro e hnow
      exact .inr (.inr ⟨s, hs, hnow⟩)
    · intro lines hnow e he
      have hnames : introducedNames lines ⊆ firstNames ss := by
        intro n hn
        exact List.mem_flatMap.2 ⟨s, hs, by rw [hnow]; exact hn⟩
      have hnumerals : weightNumerals lines ⊆ ss.flatMap (·.now.numerals) := by
        intro w hw
        exact List.mem_flatMap.2 ⟨s, hs, by rw [hnow]; exact hw⟩
      rcases Registry.build_fails he with hstops | hlong
      · rw [hr] at hstops
        exact .inl (hstops.mono (List.Subset.refl _) hnames)
      · exact .inr (.inl (hlong.mono hnumerals))

/-- The second pass enters no name, whatever the sources hold and wherever it fails. -/
theorem names_passAll_build (reg : Registry) (ss : List Source) :
    (passAll Registry.build reg ss).registry.names = reg.names :=
  passAll_keeps (P := fun r => r.names = reg.names)
    (fun s _ lines _ r hr => (Registry.names_build r s.name lines).trans hr) rfl

/-! ### What loading fails by -/

/-- Loading fails in one of the passes, for want of a root between them, or at the close. -/
theorem load_error_cases {l : Loader} {p q : Passed} {e : Failure}
    (hp : passAll Registry.declare l.registry l.sources = p)
    (hq : passAll Registry.build p.registry p.sources = q) (h : (load l).result = .error e) :
    p.failure = some e ∨ p.failure = none ∧
      (e = .ofFault (.rootNotFound l.root) ∨ p.registry.declares l.root ∧
        (q.failure = some e ∨
          (complete { l with sources := q.sources, registry := q.registry }).1 = .error e)) := by
  rw [result_load hp hq] at h
  split at h
  · next hpf =>
    cases h
    exact .inl hpf
  · next hpf =>
    refine .inr ⟨hpf, ?_⟩
    split at h
    · next hroot =>
      refine .inr ⟨hroot, ?_⟩
      split at h
      · next hqf =>
        cases h
        exact .inl hqf
      · exact .inr h
    · cases h
      exact .inl rfl

theorem Matches.exists_of_declares {reg : Registry} {vs : List Variable} (h : Matches reg vs)
    {n : Name} (hn : reg.declares n) : ∃ v ∈ vs, v.name = n := by
  have hmap : n ∈ vs.map (·.name) := h.names_eq ▸ Registry.declares_iff.1 hn
  simpa using hmap

/-- With distinct names and a root that is one of them, only an empty draft keeps a loader from
making a grammar. -/
theorem complete_eq_error {l : Loader} (hn : l.registry.names.Nodup)
    (hroot : l.registry.declares l.root) {e : Failure} (h : (complete l).1 = .error e) :
    ∃ n, e = .ofFault (.vanishedVariable n) := by
  rcases complete_cases hn with ⟨d, -, -, hc⟩ | ⟨vs, hall, hc⟩
  · rw [hc] at h
    cases h
    exact ⟨d.name, rfl⟩
  · rw [hc, dif_pos (hall.exists_of_declares hroot)] at h
    cases h

end Loader

/-- The ways in which loading ends with a failure that no rule file is blamed for: one of the
readings fails with it, a name is unknown that is introduced at a second reading and at none of the
first ones, or one of the numerals `ws` is too long. -/
inductive Escape (ss : List Source) (ws : List Text) : Failure → Prop
  | reading {s : Source} {e : Failure} (hs : s ∈ ss)
      (he : s.now = .error e ∨ s.read.2.now = .error e) : Escape ss ws e
  | newName {n : Name} (hn : n ∈ secondNames ss) (hnew : n ∉ firstNames ss) :
      Escape ss ws (.unknownName n)
  | numeral {w : Text} (hw : w ∈ ws) (hlong : Numeral.maxLength < w.length) :
      Escape ss ws (.longNumeral w.length)

/-- Whatever the sources are and however they change: loading fails with load errors, or in one of
the three ways past them. -/
theorem escape_of_loadRules {ss : List Source} {root : Name} {e : Failure}
    (he : loadRules ss root = .error e) : e.IsLoad ∨ Escape ss (secondNumerals ss) e := by
  generalize hp : Loader.passAll Registry.declare [] ss = p
  generalize hq : Loader.passAll Registry.build p.registry p.sources = q
  have hproper : p.registry.IsProper := by
    rw [← hp]
    refine Loader.passAll_keeps (fun s _ lines _ reg hreg => ?_) Registry.isProper_nil
    exact Registry.isProper_declare hreg s.name lines
  rcases Loader.load_error_cases hp hq he with he | ⟨hpf, rfl | ⟨hroot, he | he⟩⟩
  · rcases Loader.declare_fails (hp ▸ he) with hload | ⟨s, hs, hnow⟩
    · exact .inl hload
    · exact .inr (.reading hs (.inl hnow))
  · exact .inl (Failure.isLoad_ofFault _)
  · -- the second pass goes over what the sources hold behind the first one
    have hsources : p.sources = ss.map (·.read.2) := hp ▸ Loader.sources_passAll (hp ▸ hpf)
    have hfirst : firstNames ss ⊆ p.registry.names := by
      subst hp
      exact (Loader.firstNames_subset hpf).2
    rw [← hq, hsources] at he
    rcases Loader.build_fails he with (hload | ⟨n, hn, hnew, rfl⟩) | ⟨w, hw, hlong, rfl⟩ | hread
    · exact .inl hload
    · exact .inr (.newName hn fun hmem => hnew (hfirst hmem))
    · exact .inr (.numeral hw hlong)
    · obtain ⟨s', hs', hnow⟩ := hread
      obtain ⟨s, hs, rfl⟩ := List.mem_map.1 hs'
      exact .inr (.reading hs (.inr hnow))
  · -- behind both passes the names are those of the first one, and the root is one of them
    have hnames : q.registry.names = p.registry.names := hq ▸ Loader.names_passAll_build _ _
    obtain ⟨n, rfl⟩ := Loader.complete_eq_error (by rw [hnames]; exact hproper.nodup)
      (by rw [Registry.declares_congr hnames]; exact hroot) he
    exact .inl (Failure.isLoad_ofFault _)

theorem stops_of_loadRules {ss : List Source} (h : ∀ s ∈ ss, s.IsReadable) {root : Name}
    {e : Failure} (he : loadRules ss root = .error e) :
    Registry.Stops (firstNames ss) (secondNames ss) e := by
  rcases escape_of_loadRules he with hload | hescape
  · exact .inl hload
  · cases hescape with
    | reading hs he =>
      rcases he with he | he
      · exact .inl ((h _ hs).first e he)
      · exact .inl ((h _ hs).second e he)
    | newName hn hnew => exact .inr ⟨_, hn, hnew, rfl⟩
    | @numeral w hw hlong =>
      obtain ⟨s', hs', hw⟩ := List.mem_flatMap.1 hw
      obtain ⟨s, hs, rfl⟩ := List.mem_map.1 hs'
      have hle : w.length ≤ Numeral.maxLength := by
        cases hnow : s.read.2.now with
        | error e => simp [hnow, Reading.numerals] at hw
        | ok lines =>
          rw [hnow] at hw
          exact (h s hs).short lines hnow w hw
      omega

/-- However the sources change between the passes: loading gives a grammar or a load error, unless a
name is unknown that is introduced at a second reading and at none of the first ones. -/
theorem loadRules_of_readable {ss : List Source} (h : ∀ s ∈ ss, s.IsReadable) (root : Name) :
    (∃ g, loadRules ss root = .ok g) ∨ (∃ f, loadRules ss root = .error (.load f)) ∨
      ∃ n ∈ secondNames ss, n ∉ firstNames ss ∧ loadRules ss root = .error (.unknownName n) := by
  cases hl : loadRules ss root with
  | ok g => exact .inl ⟨g, rfl⟩
  | error e =>
    rcases stops_of_loadRules h hl with ⟨f, rfl⟩ | ⟨n, hn, hnew, rfl⟩
    · exact .inr (.inl ⟨f, rfl⟩)
    · exact .inr (.inr ⟨n, hn, hnew, rfl⟩)

/-- A text that changes once can be read, as long as it changes to one with short numerals. -/
theorem Source.isReadable_ofTexts {name : String} {t u : Text}
    (h : ∀ w ∈ weightNumerals u.lines, w.length ≤ Numeral.maxLength) :
    (Source.ofTexts name [t, u]).IsReadable where
  first := by
    intro e he
    cases he
  second := by
    intro e he
    cases he
  short := by
    intro lines hl
    cases hl
    exact h

/-- A rule set that is cut off between the passes introduces no new name. -/
theorem loadRules_of_readable_cut :
    let ss : List Source :=
      [.ofTexts "rules" ["#a\n_b\ny\n#b\n1\n2".toList, "#b weight 2\n1\n2\n#a\n_b".toList]]
    (∀ s ∈ ss, s.IsReadable) ∧ secondNames ss ⊆ firstNames ss ∧
      ((∃ g, loadRules ss ['a'] = .ok g) ∨ ∃ f, loadRules ss ['a'] = .error (.load f)) := by
  intro ss
  have hnumerals : weightNumerals (Text.lines "#b weight 2\n1\n2\n#a\n_b".toList) = [['2']] := by
    with_unfolding_all rfl
  have hread : ∀ s ∈ ss, s.IsReadable := by
    intro s hs
    rw [List.mem_singleton.1 hs]
    apply Source.isReadable_ofTexts
    rw [hnumerals]
    decide
  have hfirst : firstNames ss = [['a'], ['b']] := by with_unfolding_all rfl
  have hsecond : secondNames ss = [['b'], ['a']] := by with_unfolding_all rfl
  have hsub : secondNames ss ⊆ firstNames ss := by
    rw [hfirst, hsecond]
    decide
  refine ⟨hread, hsub, ?_⟩
  rcases loadRules_of_readable hread ['a'] with hok | hload | ⟨n, hn, hnew, -⟩
  · exact .inl hok
  · exact .inr hload
  · exact absurd (hsub hn) hnew

/-- A name that is new at the second reading is neither loaded nor reported as a load error. -/
theorem loadRules_new_name :
    let ss : List Source :=
      [.ofTexts "rules.iski" ["#output\nx\ny".toList, "#output\nx\ny\n#extra\na\nb".toList]]
    (∀ s ∈ ss, s.IsReadable) ∧
      ¬ ((∃ g, loadRules ss = .ok g) ∨ ∃ f, loadRules ss = .error (.load f)) := by
  intro ss
  have hnumerals : weightNumerals (Text.lines "#output\nx\ny\n#extra\na\nb".toList) = [] := by
    with_unfolding_all rfl
  have hfails : loadRules ss = .error (.unknownName "extra".toList) := by with_unfolding_all rfl
  constructor
  · intro s hs
    rw [List.mem_singleton.1 hs]
    apply Source.isReadable_ofTexts
    rw [hnumerals]
    decide
  · rw [hfails]
    rintro (⟨g, hg⟩ | ⟨f, hf⟩)
    · cases hg
    · cases hf

end PairGrammar
