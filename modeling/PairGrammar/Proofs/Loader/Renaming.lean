import PairGrammar.Proofs.Loader.Editing

/-!
# Sources under other names

The name of a source is used for nothing but the place of a failure. So sources that hold the same
trimmed lines under other names are loaded alike: with the same grammar, or with the same failure,
which has the other name if it has any.

* `through_rename`: a pass over the same items under another name.
* `passAll_renamed`: passes over all sources.
* `loadRules_renamed`: so does loading.
-/

namespace PairGrammar

namespace Failure

/-- The same failure, with another name for its file. -/
def rename (f : String → String) : Failure → Failure
  | load e => load { e with file := e.file.map f }
  | other => other

variable {f : String → String} {e : Failure}

theorem rename_of_bare (h : e.bare = e) : e.rename f = e := by
  cases e with
  | load e =>
    rw [← h]
    rfl
  | _ => rfl

/-- A failure that knew no place has the name that it is located with. -/
theorem rename_locate (h : e.bare = e) (file : String) (line : Int) :
    (e.locate file line).rename f = e.locate (f file) line := by
  cases e with
  | load e =>
    rw [← h]
    rfl
  | _ => rfl

end Failure

/-- Two sources hold lines of their own, which are the same without the blanks at their ends. The
name of the second one comes from the name of the first. -/
structure Source.IsRenamed (f : String → String) (s s' : Source) : Prop where
  name_eq : s'.name = f s.name
  lines : ∃ lines lines', s.Holds lines ∧ s'.Holds lines' ∧
    lines.map Text.trimRight = lines'.map Text.trimRight

theorem Source.IsRenamed.read {f : String → String} {s s' : Source} (h : IsRenamed f s s') :
    IsRenamed f s.read.2 s'.read.2 := by
  obtain ⟨lines, lines', hs, hs', hlines⟩ := h.lines
  refine ⟨?_, lines, lines', hs.read.2, hs'.read.2, hlines⟩
  rw [name_read, name_read, h.name_eq]

namespace Registry

variable {σ : Type} {f : String → String} {file : String} {lines lines' : List Text}

/-- What a pass comes to where the names of files are other ones. -/
def renamed (f : String → String) (x : σ × Option Failure) : σ × Option Failure :=
  (x.1, x.2.map (·.rename f))

theorem through_rename {step : σ → Item → Except Failure σ}
    (hstep : ∀ s i e, step s i = .error e → e.bare = e) (f : String → String) (file : String)
    (s : σ) (items : List (Nat × Item)) :
    through step (f file) s items = renamed f (through step file s items) := by
  induction items generalizing s with
  | nil => rfl
  | cons x items ih =>
    rw [through, through]
    cases hi : step s x.2 with
    | error e => exact congrArg (s, some ·) (Failure.rename_locate (hstep s x.2 e hi) file x.1).symm
    | ok s' => exact ih s'

theorem declare_renamed (reg : Registry)
    (h : lines.map Text.trimRight = lines'.map Text.trimRight) :
    reg.declare (f file) lines' = renamed f (reg.declare file lines) := by
  rw [declare, declare, Item.scanLines, ← Item.scan_congr h]
  exact through_rename (fun _ _ _ he => bare_of_declareItem he) f file reg _

theorem build_renamed (reg : Registry) (h : lines.map Text.trimRight = lines'.map Text.trimRight) :
    reg.build (f file) lines' = renamed f (reg.build file lines) := by
  rw [build, build, Item.scanLines, ← Item.scan_congr h,
    through_rename (fun _ _ _ he => bare_of_buildItem he)]
  rfl

end Registry

namespace Loader

open Registry (renamed)

variable {f : String → String} {ss ss' : List Source}

/-- Two passes have come to the same, but for the names of sources. -/
structure Passed.IsRenamed (f : String → String) (p p' : Passed) : Prop where
  registry : p'.registry = p.registry
  failure : p'.failure = p.failure.map (·.rename f)
  sources : List.Forall₂ (Source.IsRenamed f) p.sources p'.sources

theorem passAll_renamed {pass : Pass}
    (hpass : ∀ reg file lines lines', lines.map Text.trimRight = lines'.map Text.trimRight →
      pass reg (f file) lines' = renamed f (pass reg file lines))
    (h : List.Forall₂ (Source.IsRenamed f) ss ss') (reg : Registry) :
    Passed.IsRenamed f (passAll pass reg ss) (passAll pass reg ss') := by
  induction h generalizing reg with
  | nil => exact ⟨rfl, rfl, .nil⟩
  | @cons s s' ss ss' hs hss ih =>
    obtain ⟨lines, lines', hlines, hlines', heq⟩ := hs.lines
    rw [passAll_cons hlines, passAll_cons hlines', hs.name_eq, hpass reg s.name lines lines' heq]
    rcases pass reg s.name lines with ⟨reg', _ | e⟩
    · exact ⟨(ih reg').registry, (ih reg').failure, .cons hs.read (ih reg').sources⟩
    · exact ⟨rfl, rfl, .cons hs.read hss⟩

end Loader

/-- Loading depends on the trimmed lines of sources. Their names show in failures only. -/
theorem loadRules_renamed {f : String → String} {ss ss' : List Source}
    (h : List.Forall₂ (Source.IsRenamed f) ss ss') (root : Name) :
    loadRules ss' root = (loadRules ss root).mapError (·.rename f) := by
  have hp := Loader.passAll_renamed (fun reg _ _ _ => Registry.declare_renamed reg) h []
  generalize hd : Loader.passAll Registry.declare [] ss = p at hp
  generalize hd' : Loader.passAll Registry.declare [] ss' = p' at hp
  have hq := Loader.passAll_renamed (fun reg _ _ _ => Registry.build_renamed reg) hp.sources
    p.registry
  rw [loadRules, loadRules, Loader.result_load hd' rfl, Loader.result_load hd rfl, hp.failure,
    hp.registry]
  cases p.failure with
  | some e => rfl
  | none =>
    dsimp only [Option.map_none]
    split
    · rw [hq.failure, hq.registry]
      cases (Loader.passAll Registry.build p.registry p.sources).failure with
      | some e => rfl
      | none =>
        -- nothing in the close has a place
        dsimp only [Option.map_none]
        rw [Loader.complete_fst _ (Loader.passAll Registry.build p.registry p.sources).sources]
        generalize hc : (Loader.complete _).1 = c
        cases c with
        | ok g => rfl
        | error e => exact congrArg Except.error (Failure.rename_of_bare
            (Loader.bare_of_complete hc)).symm
    · rfl

end PairGrammar
