import PairGrammar.Proofs.Loader.Actions
import PairGrammar.Proofs.Loader.Changing

/-!
# Loading seals all drafts or none

Drafts are sealed at the close of a load, one after the other, and a failure half-way would leave
some of them sealed. It does not happen: behind both passes the root is known and the names differ,
so that an empty draft is all that can be in the way, and the drafts are looked through for one
before the first of them is sealed.

* `Draft.finish_eq`: what a variable is checked for when a draft is sealed.
* `SealsNothing.declare`, `SealsNothing.build`: the passes seal nothing.
* `seals_of_complete`: the close seals nothing, or everything.
* `load_seals_all_or_nothing`: so does loading, behind whatever has been done before.
-/

namespace PairGrammar

/-- A variable passes all checks of its lists of productions and weights. -/
theorem Variable.ofLists?_eq_ok (v : Variable) :
    ofLists? v.name v.productions (v.weights.map Int.ofNat) = .ok v := by
  have hne : v.productions ≠ [] := by simpa [productions] using v.entries_ne_nil
  have hlength : v.productions.length = (v.weights.map Int.ofNat).length := by
    simp [productions, weights]
  have hpos : ¬ (v.weights.map Int.ofNat).any (· < 0) := by simp
  have hzip : v.productions.zip ((v.weights.map Int.ofNat).map Int.toNat) = v.entries := by
    simp [productions, weights, Function.comp_def, List.zip_map']
  rw [ofLists?, dif_neg hne, dif_neg (not_not_intro hlength), if_neg hpos]
  simp only [hzip]

/-- Sealing makes a variable of a draft with all of these checks, and a draft without productions is
all that it can fail at. -/
theorem Draft.finish_eq (d : Draft) :
    d.finish = (Variable.ofLists? d.name (d.entries.map Prod.fst) (d.weights.map Int.ofNat)).map
      (·, { d with isSealed := true }) := by
  by_cases hd : d.entries = []
  · simp [finish, Variable.ofLists?, hd, Except.map]
  · have hlists : Variable.ofLists? d.name (d.entries.map Prod.fst) (d.weights.map Int.ofNat) =
        .ok ⟨d.name, d.entries, hd⟩ := Variable.ofLists?_eq_ok ⟨d.name, d.entries, hd⟩
    rw [finish, dif_neg hd, hlists]
    rfl

namespace Registry

variable {reg₀ reg reg' : Registry}

/-- Every sealed draft was there before, sealed. -/
def SealsNothing (reg₀ reg : Registry) : Prop := ∀ d ∈ reg, d.isSealed → d ∈ reg₀

theorem SealsNothing.refl (reg : Registry) : SealsNothing reg reg := fun _ hd _ => hd

theorem SealsNothing.declareItem (h : SealsNothing reg₀ reg) {i : Item}
    (hi : Registry.declareItem reg i = .ok reg') : SealsNothing reg₀ reg' := by
  rcases declareItem_cases hi with rfl | ⟨n, -, rfl⟩
  · exact h
  · intro d hd hsealed
    rcases mem_enter hd with hd | rfl
    · exact h d hd hsealed
    · cases hsealed

/-- A draft that a production is added to is not sealed. -/
theorem SealsNothing.add (hreg : SealsNothing reg₀ reg) {h : Header} {p : Production}
    (ha : reg.add h p = .ok reg') : SealsNothing reg₀ reg' := by
  obtain ⟨d, -, -, hopen, rfl⟩ := add_eq_ok_iff.1 ha
  intro e he hsealed
  rcases mem_update he with rfl | he
  · rw [hopen] at hsealed
    cases hsealed
  · exact hreg e he hsealed

theorem SealsNothing.buildItem {s s' : Registry × Progress} (h : SealsNothing reg₀ s.1) {i : Item}
    (hi : Registry.buildItem s i = .ok s') : SealsNothing reg₀ s'.1 := by
  obtain ⟨reg, q⟩ := s
  obtain ⟨reg', q'⟩ := s'
  rcases buildItem_cases hi with ⟨_, _, -, -, rfl, -⟩ | ⟨_, _, _, -, -, -, rfl, -⟩ |
    ⟨_, _, _, _, -, -, -, ha, -⟩
  · exact h
  · exact h
  · exact SealsNothing.add h ha

theorem SealsNothing.declare (h : SealsNothing reg₀ reg) (file : String) (lines : List Text) :
    SealsNothing reg₀ (reg.declare file lines).1 :=
  through_keeps (fun _ _ _ _ hs hi => SealsNothing.declareItem hs hi) h

theorem SealsNothing.build (h : SealsNothing reg₀ reg) (file : String) (lines : List Text) :
    SealsNothing reg₀ (reg.build file lines).1 := by
  have hthrough : SealsNothing reg₀
      (through Registry.buildItem file (reg, .none) (Item.scanLines lines)).1.1 :=
    through_keeps (P := fun s : Registry × Progress => SealsNothing reg₀ s.1)
      (fun _ _ _ _ hs hi => SealsNothing.buildItem hs hi) h
  rw [Registry.build]
  exact hthrough

end Registry

namespace Loader

open Registry (IsSound SealsNothing)

/-! ### The close -/

/-- Where no draft is empty, all drafts are sealed. -/
theorem finishAll_snd {ds : List Draft} (h : ∀ d ∈ ds, d.entries ≠ []) :
    (Grammar.finishAll ds).2 = ds.map fun d => { d with isSealed := true } := by
  induction ds with
  | nil => rfl
  | cons d ds ih =>
    obtain ⟨hd, hds⟩ := List.forall_mem_cons.1 h
    rw [Grammar.finishAll, Draft.finish, dif_neg hd, List.map_cons, ← ih hds]

/-- An empty draft would stop the sealing half-way. -/
example : (Grammar.finishAll [⟨['a'], [(⟨[], []⟩, 1)], false⟩, ⟨['b'], [], false⟩]).2.map
    (·.isSealed) = [true, false] := rfl

/-- There is no grammar and nothing has been sealed, or all drafts have been, and they are the
variables of the grammar. -/
def SealsAllOrNothing (reg₀ : Registry) (x : Except Failure Grammar × Loader) : Prop :=
  (∃ e, x.1 = .error e ∧ SealsNothing reg₀ x.2.registry) ∨
    ∃ g, x.1 = .ok g ∧ (∀ d ∈ x.2.registry, d.isSealed) ∧ Matches x.2.registry g.vocabulary

/-- With distinct names and a root that is one of them only an empty draft is in the way of the
close, and it is found before anything is sealed. -/
theorem seals_of_complete {l : Loader} {reg₀ : Registry} (h : SealsNothing reg₀ l.registry)
    (hn : l.registry.names.Nodup) (hroot : l.registry.declares l.root) :
    SealsAllOrNothing reg₀ (complete l) := by
  cases hfind : List.find? (·.entries.isEmpty) l.registry with
  | some d =>
    have hc : complete l = (.error (.ofFault (.vanishedVariable d.name)), l) := by
      rw [complete, hfind]
    rw [hc]
    exact .inl ⟨_, rfl, h⟩
  | none =>
    have hfull : ∀ d ∈ l.registry, d.entries ≠ [] :=
      fun d hd => by simpa using List.find?_eq_none.1 hfind d hd
    rcases complete_cases hn with ⟨d, hd, hempty, -⟩ | ⟨vs, hall, hc⟩
    · exact absurd hempty (hfull d hd)
    · have hregistry : (complete l).2.registry = (Grammar.finishAll l.registry).2 := by
        rw [complete, hfind]
        rfl
      rw [dif_pos (hall.exists_of_declares hroot)] at hc
      refine .inr ⟨_, hc, ?_, ?_⟩
      · rw [hregistry, finishAll_snd hfull, List.forall_mem_map]
        exact fun d _ => rfl
      · rw [hregistry, finishAll_snd hfull]
        exact List.forall₂_map_left_iff.2 hall

/-! ### Loading -/

/-- What the passes leave is sound, and they seal nothing. -/
theorem seals_of_load {l : Loader} (h : l.registry.IsSound) :
    SealsAllOrNothing l.registry ((load l).result, (load l).loader) := by
  generalize hp : passAll Registry.declare l.registry l.sources = p
  generalize hq : passAll Registry.build p.registry p.sources = q
  have hpsound : p.registry.IsSound := hp ▸ passAll_keeps (P := IsSound)
    (fun s _ lines _ _ hr => (Registry.grown_declare hr s.name lines).sound) h
  have hqsound : q.registry.IsSound := hq ▸ passAll_keeps (P := IsSound)
    (fun s _ lines _ _ hr => (Registry.grown_build hr s.name lines).sound) hpsound
  have hpseals : SealsNothing l.registry p.registry := hp ▸ passAll_keeps
    (P := SealsNothing l.registry) (fun s _ lines _ _ hr => hr.declare s.name lines) (.refl _)
  have hqseals : SealsNothing l.registry q.registry := hq ▸ passAll_keeps
    (P := SealsNothing l.registry) (fun s _ lines _ _ hr => hr.build s.name lines) hpseals
  have hnames : q.registry.names = p.registry.names := hq ▸ names_passAll_build _ _
  rw [outcome_load hp hq]
  cases p.failure with
  | some e => exact .inl ⟨e, rfl, hpseals⟩
  | none =>
    cases hroot : p.registry.declares l.root with
    | false => exact .inl ⟨_, rfl, hpseals⟩
    | true =>
      cases q.failure with
      | some e => exact .inl ⟨e, rfl, hqseals⟩
      | none =>
        have hroot' : q.registry.declares l.root := by
          rw [Registry.declares_congr hnames]
          exact hroot
        exact seals_of_complete hqseals hqsound.proper.nodup hroot'

/-- Whatever has been done with a loader and whatever its sources hold now: where loading fails no
draft is sealed that was not sealed before, and where it gives a grammar all drafts are sealed, and
its variables are these drafts in their order. So nothing fails once a draft has been sealed. -/
theorem load_seals_all_or_nothing (ss₀ : List Source) (root : Name) (as : List Action)
    (ss : List Source) :
    let l := run { sources := ss₀, root := root } as
    let loaded := load { l with sources := ss }
    (∀ e, loaded.result = .error e →
      ∀ d ∈ loaded.loader.registry, d.isSealed → d ∈ l.registry) ∧
    (∀ g, loaded.result = .ok g → (∀ d ∈ loaded.loader.registry, d.isSealed) ∧
      Matches loaded.loader.registry g.vocabulary) ∧
    ((∃ d ∈ loaded.loader.registry, d.isSealed ∧ d ∉ l.registry) →
      ∃ g, loaded.result = .ok g) := by
  intro l loaded
  have hsound : l.registry.IsSound := (grown_run Registry.isSound_nil as).sound
  rcases seals_of_load (l := { l with sources := ss }) hsound with
    ⟨e, he, hnothing⟩ | ⟨g, hg, hsealed, hmatches⟩
  · refine ⟨fun _ _ => hnothing, fun g hg => ?_, ?_⟩
    · cases he.symm.trans hg
    · rintro ⟨d, hd, hsealed, hnew⟩
      exact absurd (hnothing d hd hsealed) hnew
  · refine ⟨fun e he => ?_, fun g' hg' => ?_, fun _ => ⟨g, hg⟩⟩
    · cases hg.symm.trans he
    · cases hg.symm.trans hg'
      exact ⟨hsealed, hmatches⟩

/-- A draft is sealed by a first load and stays so; a second one fails, as its source has lost a line
between the readings, and does not seal the draft that it has entered. -/
theorem load_seals_all_or_nothing_twice :
    let first : Source := ⟨"rules.iski", .ok (["#a", "x", "y"].map String.toList), []⟩
    let second : Source := ⟨"rules.iski", .ok (["#b", "x", "y"].map String.toList),
      [.ok (["#b", "x"].map String.toList)]⟩
    let l := run { sources := [first], root := ['a'] } [.load [first]]
    let loaded := load { l with sources := [second] }
    loaded.result = .error (.load ⟨.lineMissing .third, some "rules.iski", some 2⟩) ∧
      loaded.loader.registry.map (·.isSealed) = [true, false] ∧
      ∀ d ∈ loaded.loader.registry, d.isSealed → d ∈ l.registry := by
  intro first second l loaded
  have hresult : loaded.result =
      .error (.load ⟨.lineMissing .third, some "rules.iski", some 2⟩) :=
    Piece.map_eq_error (f := Grammar.names) (by decide +kernel)
  exact ⟨hresult, by decide +kernel,
    (load_seals_all_or_nothing [first] ['a'] [.load [first]] [second]).1 _ hresult⟩

end Loader

end PairGrammar
