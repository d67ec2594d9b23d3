import PairGrammar.Proofs.Block.Editing
import PairGrammar.Proofs.Loader.Changing
import PairGrammar.Proofs.Loader.Splitting

/-!
# Comments and blanks at the ends of lines

Comments and blank lines between blocks, and blanks at the ends of lines, make no difference to what
is loaded. With them and without them a loader comes upon the same items, in both of its passes, so
it enters the same names and adds the same productions up to the same failure. Only the line that
the failure is reported at is another one: it is what the line has become in that source. Several
sources may have one name, so it is by its position that a source is told from the others.

* `Revision`: a source before and behind any number of edits.
* `through_renumber`: a pass over items whose lines have got other numbers.
* `passAll_revised`: passes over all sources go along with each other.
* `loadRules_revised`: so does loading.
-/

namespace PairGrammar

/-- The second failure is the first one. If that has a place, it is a line of the file, and the
place of the second one is what has become of the line. -/
inductive Failure.Moved (file : String) (move : Nat → Nat) : Failure → Failure → Prop
  | unplaced {e : Failure} : e.bare = e → Moved file move e e
  | placed (fault : Fault) (k : Nat) :
      Moved file move (.load ⟨fault, some file, some k⟩) (.load ⟨fault, some file, some (move k)⟩)

/-- A failure without a place is located where it comes up. -/
theorem Failure.moved_locate {e : Failure} (h : e.bare = e) (file : String) (move : Nat → Nat)
    (k : Nat) : (e.locate file k).Moved file move (e.locate file (move k)) := by
  cases e with
  | load e =>
    obtain ⟨fault, file', line⟩ := e
    cases h
    exact .placed fault k
  | _ => exact .unplaced rfl

/-- What becomes of a failure that is placed at a line of the file. -/
theorem Failure.Moved.eq_of_placed {fault : Fault} {file : String} {move : Nat → Nat} {k : Nat}
    {e : Failure} (h : Moved file move (.load ⟨fault, some file, some (k : Int)⟩) e) :
    e = .load ⟨fault, some file, some (move k : Int)⟩ := by
  generalize hline : (k : Int) = line at h
  cases h with
  | unplaced hbare => cases hbare
  | placed fault l =>
    obtain rfl : l = k := by omega
    rfl

namespace Registry

/-- Two runs end in the same state, and both fail or none does. -/
inductive Alongside {σ : Type} (file : String) (move : Nat → Nat) :
    σ × Option Failure → σ × Option Failure → Prop
  | passed (s : σ) : Alongside file move (s, none) (s, none)
  | failed (s : σ) {e e' : Failure} :
      e.Moved file move e' → Alongside file move (s, some e) (s, some e')

theorem through_renumber {σ : Type} {step : σ → Item → Except Failure σ}
    (hstep : ∀ s i e, step s i = .error e → e.bare = e) (file : String) (move : Nat → Nat) (s : σ)
    (items : List (Nat × Item)) :
    Alongside file move (through step file s items)
      (through step file s (Item.renumber move items)) := by
  induction items generalizing s with
  | nil => exact .passed s
  | cons x items ih =>
    obtain ⟨k, i⟩ := x
    show Alongside file move (through step file s ((k, i) :: items))
      (through step file s ((move k, i) :: Item.renumber move items))
    rw [through, through]
    cases hi : step s i with
    | error e => exact .failed s (Failure.moved_locate (hstep s i e hi) file move k)
    | ok s' => exact ih s'

variable {lines lines' : List Text} {move : Nat → Nat}

theorem declare_edited (reg : Registry) (file : String) (h : Edited lines lines' move) :
    Alongside file move (reg.declare file lines) (reg.declare file lines') := by
  rw [declare, declare, scanLines_of_edited h]
  exact through_renumber (fun _ _ _ he => bare_of_declareItem he) file move reg _

theorem build_edited (reg : Registry) (file : String) (h : Edited lines lines' move) :
    Alongside file move (reg.build file lines) (reg.build file lines') := by
  rw [build, build, scanLines_of_edited h]
  have hrun : Alongside file move (through buildItem file (reg, .none) (Item.scanLines lines))
      (through buildItem file (reg, .none) (Item.renumber move (Item.scanLines lines))) :=
    through_renumber (fun _ _ _ he => bare_of_buildItem he) file move _ _
  generalize through buildItem file (reg, .none) (Item.scanLines lines) = x at hrun ⊢
  generalize through buildItem file (reg, .none) (Item.renumber move (Item.scanLines lines)) = x'
    at hrun ⊢
  cases hrun with
  | passed s => exact .passed s.1
  | failed s hm => exact .failed s.1 hm

end Registry

/-! ### Sources before and behind edits -/

/-- A source, what it is behind edits of its lines, and what has become of the numbers of these. -/
structure Revision where
  before : Source
  after : Source
  move : Nat → Nat
  name_eq : after.name = before.name
  edited : ∃ lines lines', before.Holds lines ∧ after.Holds lines' ∧ Edited lines lines' move

namespace Revision

/-- Both sources are read. -/
def read (r : Revision) : Revision where
  before := r.before.read.2
  after := r.after.read.2
  move := r.move
  name_eq := by rw [Source.name_read, Source.name_read, r.name_eq]
  edited := by
    obtain ⟨lines, lines', hb, ha, h⟩ := r.edited
    exact ⟨lines, lines', hb.read.2, ha.read.2, h⟩

/-- The second failure is the first one, moved with its line in the source. -/
def Moves (r : Revision) (e e' : Failure) : Prop := e.Moved r.before.name r.move e'

theorem moves_read {r : Revision} {e e' : Failure} : r.read.Moves e e' ↔ r.Moves e e' := by
  show Failure.Moved r.before.read.2.name r.move e e' ↔ _
  rw [Source.name_read]
  rfl

end Revision

namespace Loader

open Registry (Alongside)

/-- The position of the source that a pass has stopped at. -/
def Passed.stop? (p : Passed) : Option Nat := p.failure.map fun _ => p.visited.length - 1

theorem Passed.stop?_eq {p : Passed} {e : Failure} {i : Nat} (he : p.failure = some e)
    (hi : p.visited.length = i + 1) : p.stop? = some i := by
  rw [stop?, he, hi]
  rfl

/-- The position of the source that loading stops at, in whichever pass. -/
def stop? (l : Loader) : Option Nat :=
  match passAll Registry.declare l.registry l.sources with
  | p => p.stop?.or <|
    if p.registry.declares l.root then (passAll Registry.build p.registry p.sources).stop? else none

/-- A pass over sources before and behind edits. Either it comes through on both sides, leaves the
same registry, and has read each source once; or it fails on both sides, at the sources of one
position. -/
inductive Abreast (rs : List Revision) : Passed → Passed → Prop
  | passed (reg : Registry) (visited visited' : List String) :
      Abreast rs ⟨(rs.map Revision.read).map (·.before), reg, visited, none⟩
        ⟨(rs.map Revision.read).map (·.after), reg, visited', none⟩
  | failed {p p' : Passed} {e e' : Failure} {i : Nat} {r : Revision} :
      p.failure = some e → p'.failure = some e' → p.visited.length = i + 1 →
      p'.visited.length = i + 1 → rs[i]? = some r → r.Moves e e' → Abreast rs p p'

/-- Passes that go along with each other over edited lines do so over edited sources. -/
theorem passAll_revised {pass : Pass}
    (hpass : ∀ reg file lines lines' move, Edited lines lines' move →
      Alongside file move (pass reg file lines) (pass reg file lines'))
    (rs : List Revision) (reg : Registry) :
    Abreast rs (passAll pass reg (rs.map (·.before))) (passAll pass reg (rs.map (·.after))) := by
  induction rs generalizing reg with
  | nil => exact .passed reg [] []
  | cons r rs ih =>
    obtain ⟨lines, lines', hb, ha, h⟩ := r.edited
    have hfirst := hpass reg r.before.name lines lines' r.move h
    rw [List.map_cons, List.map_cons, passAll_cons hb, passAll_cons ha, r.name_eq]
    generalize pass reg r.before.name lines = x at hfirst ⊢
    generalize pass reg r.before.name lines' = x' at hfirst ⊢
    cases hfirst with
    | passed reg' =>
      have hrest := ih reg'
      dsimp only
      generalize passAll pass reg' (rs.map (·.before)) = q at hrest ⊢
      generalize passAll pass reg' (rs.map (·.after)) = q' at hrest ⊢
      cases hrest with
      | passed reg'' visited visited' =>
        exact .passed reg'' (r.before.name :: visited) (r.before.name :: visited')
      | failed he he' hi hi' hr hm =>
        exact .failed he he' (congrArg (· + 1) hi) (congrArg (· + 1) hi') hr hm
    | failed reg' hm => exact .failed rfl rfl rfl rfl rfl hm

/-- The close fails without a place. -/
theorem bare_of_complete {l : Loader} {e : Failure} (h : (complete l).1 = .error e) :
    e.bare = e := by
  unfold complete at h
  split at h
  · cases h
    rfl
  · next hfind =>
    have hfull : ∀ d ∈ l.registry, d.entries ≠ [] :=
      fun d hd => by simpa using List.find?_eq_none.1 hfind d hd
    obtain ⟨vs, hvs, -⟩ := Grammar.finishAll_eq_ok hfull
    have hroot : Grammar.ofVariables? vs l.root = .error e := by
      rw [← h, Grammar.ofDrafts]
      dsimp only
      rw [hvs]
      rfl
    unfold Grammar.ofVariables? at hroot
    split at hroot
    · cases hroot
    · cases hroot
      rfl

end Loader

/-- Loading sources before and behind edits, with the position of the source that it stops at, if
there is one. Both give the same grammar, or both fail: with one failure when no source is at fault,
or at the sources of one position, and then the failure moves with its line there. -/
inductive Alike (rs : List Revision) :
    (stop stop' : Option Nat) → (result result' : Except Failure Grammar) → Prop
  | ok (g : Grammar) : Alike rs none none (.ok g) (.ok g)
  | closing {e : Failure} : e.bare = e → Alike rs none none (.error e) (.error e)
  | stopped {i : Nat} {r : Revision} {e e' : Failure} :
      rs[i]? = some r → r.Moves e e' → Alike rs (some i) (some i) (.error e) (.error e')

/-- Blanks at the ends of lines, and skipped lines where a header is expected, make no difference to
the grammar that is loaded, nor to a failure, which stays in its source and moves with its line. -/
theorem loadRules_revised (rs : List Revision) (root : Name) :
    Alike rs (Loader.stop? { sources := rs.map (·.before), root := root })
      (Loader.stop? { sources := rs.map (·.after), root := root })
      (loadRules (rs.map (·.before)) root) (loadRules (rs.map (·.after)) root) := by
  have hdeclare := Loader.passAll_revised
    (fun reg file _ _ _ => Registry.declare_edited reg file) rs []
  generalize hp : Loader.passAll Registry.declare [] (rs.map (·.before)) = p at hdeclare
  generalize hp' : Loader.passAll Registry.declare [] (rs.map (·.after)) = p' at hdeclare
  rw [loadRules, loadRules, Loader.result_load hp rfl, Loader.result_load hp' rfl, Loader.stop?,
    Loader.stop?, hp, hp']
  dsimp only
  cases hdeclare with
  | failed he he' hi hi' hr hm =>
    rw [Loader.Passed.stop?_eq he hi, Loader.Passed.stop?_eq he' hi', he, he']
    exact .stopped hr hm
  | passed reg visited visited' =>
    have hbuild := Loader.passAll_revised
      (fun reg file _ _ _ => Registry.build_edited reg file) (rs.map Revision.read) reg
    have hnone (sources visited) : (Loader.Passed.mk sources reg visited none).stop? = none := rfl
    rw [hnone, hnone, Option.none_or, Option.none_or]
    dsimp only
    generalize Loader.passAll Registry.build reg ((rs.map Revision.read).map (·.before)) = q
      at hbuild ⊢
    generalize Loader.passAll Registry.build reg ((rs.map Revision.read).map (·.after)) = q'
      at hbuild ⊢
    by_cases hroot : reg.declares root
    · rw [if_pos hroot, if_pos hroot, if_pos hroot, if_pos hroot]
      cases hbuild with
      | failed he he' hi hi' hr hm =>
        rw [List.getElem?_map] at hr
        obtain ⟨r, hrevision, rfl⟩ := Option.map_eq_some_iff.1 hr
        rw [Loader.Passed.stop?_eq he hi, Loader.Passed.stop?_eq he' hi', he, he']
        exact .stopped hrevision (Revision.moves_read.1 hm)
      | passed reg' visited visited' =>
        dsimp only
        generalize (rs.map Revision.read).map Revision.read = rs'
        rw [Loader.complete_fst (rs'.map (·.after)) (rs'.map (·.before))]
        cases hc : (Loader.complete ⟨rs'.map (·.before), root, reg'⟩).1 with
        | ok g => exact .ok g
        | error e => exact .closing (Loader.bare_of_complete hc)
    · rw [if_neg hroot, if_neg hroot, if_neg hroot, if_neg hroot]
      exact .closing rfl

/-- A note in front of the lines of two sources that have one name, and more in the second one. If
its only block is cut off behind the header, loading stops at the second source, in its third line
instead of the first one; with the rest of the block, the grammar is the same. -/
theorem loadRules_revised_truncated :
    let note : Text := ['n', 'o', 't', 'e']
    let first : List Text := [['#', 'a'], ['_', 'b'], ['y']]
    let second : List Text → List Text := fun rest => ['#', 'b'] :: rest
    let second' : List Text → List Text := fun rest =>
      note :: Header.emptyLine :: ['#', 'b', '\t'] :: rest
    let source : List Text → Source := fun lines => ⟨"<string>", .ok lines, []⟩
    let before : List Text → List Source := fun rest => [source first, source (second rest)]
    let after : List Text → List Source := fun rest =>
      [source (note :: first), source (second' rest)]
    let rest : List Text := [['u'], ['v']]
    ∃ move move', Edited first (note :: first) move ∧
      (∀ rest, Edited (second rest) (second' rest) move') ∧ move 1 = 2 ∧ move' 1 = 3 ∧
      loadRules (before []) ['a'] = .error (.load ⟨.lineMissing .second, "<string>", some 1⟩) ∧
      loadRules (after []) ['a'] = .error (.load ⟨.lineMissing .second, "<string>", some 3⟩) ∧
      Loader.stop? { sources := before [], root := ['a'] } = some 1 ∧
      Loader.stop? { sources := after [], root := ['a'] } = some 1 ∧
      (∃ g, loadRules (before rest) ['a'] = .ok g ∧ loadRules (after rest) ['a'] = .ok g) := by
  intro note first second second' source before after rest
  let move' : Nat → Nat := Item.moveBehind 0 ∘ Item.moveBehind 0
  have hfirst : Edited first ([] ++ note :: first) (Item.moveBehind 0) :=
    .insert .refl (by decide) (by decide)
  have hsecond (rest : List Text) : Edited (second rest) (second' rest) move' := by
    have hempty : Edited (second rest) ([] ++ Header.emptyLine :: second rest) _ :=
      .insert .refl (by simp [Item.Expected.behind]) (by decide)
    have hnote : Edited (second rest) ([] ++ note :: Header.emptyLine :: second rest) move' :=
      .insert hempty (by simp [Item.Expected.behind]) (by decide)
    have hblank : ∀ c ∈ ['\t'], isBlank c := by
      intro c hc
      rw [List.mem_singleton.1 hc]
      decide
    have htab : Edited (second rest)
        ([note, Header.emptyLine] ++ (['#', 'b'] ++ ['\t']) :: rest) move' :=
      .extend hnote hblank
    exact htab
  have hholds (lines : List Text) : (source lines).Holds lines := ⟨rfl, by simp [source]⟩
  let rs : List Text → List Revision := fun rest =>
    [⟨source first, source (note :: first), _, rfl, _, _, hholds _, hholds _, hfirst⟩,
      ⟨source (second rest), source (second' rest), _, rfl, _, _, hholds _, hholds _, hsecond rest⟩]
  have hfails : loadRules (before []) ['a'] =
      .error (.load ⟨.lineMissing .second, "<string>", some 1⟩) := by with_unfolding_all rfl
  have hstop : Loader.stop? { sources := before [], root := ['a'] } = some 1 := by
    with_unfolding_all rfl
  obtain ⟨g, hg⟩ : ∃ g, loadRules (before rest) ['a'] = .ok g := ⟨_, by with_unfolding_all rfl⟩
  have htruncated : Alike (rs []) (Loader.stop? { sources := before [], root := ['a'] })
      (Loader.stop? { sources := after [], root := ['a'] }) (loadRules (before []) ['a'])
      (loadRules (after []) ['a']) := loadRules_revised (rs []) ['a']
  have hwhole : Alike (rs rest) (Loader.stop? { sources := before rest, root := ['a'] })
      (Loader.stop? { sources := after rest, root := ['a'] }) (loadRules (before rest) ['a'])
      (loadRules (after rest) ['a']) := loadRules_revised (rs rest) ['a']
  refine ⟨_, _, hfirst, hsecond, rfl, rfl, hfails, ?_⟩
  rw [hstop, hfails] at htruncated
  rw [hg] at hwhole
  generalize loadRules (after []) ['a'] = failed, loadRules (after rest) ['a'] = loaded,
    Loader.stop? { sources := after [], root := ['a'] } = stop,
    Loader.stop? { sources := after rest, root := ['a'] } = stop' at htruncated hwhole ⊢
  cases hwhole with
  | ok _ =>
    cases htruncated with
    | @stopped _ r _ e' hr hm =>
      cases hr
      have hplace : e' = .load ⟨.lineMissing .second, "<string>", some (move' 1 : Nat)⟩ :=
        Failure.Moved.eq_of_placed (k := 1) hm
      exact ⟨congrArg _ hplace, rfl, rfl, g, hg, rfl⟩

end PairGrammar
