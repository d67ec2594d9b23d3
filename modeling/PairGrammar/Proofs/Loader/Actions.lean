import PairGrammar.Proofs.Loader.Origin
import PairGrammar.Proofs.Registry.Growing

/-!
# What may be done with a loader

A loader need not be used for one load. Its passes can be made over single sources, in any order and
as often as one likes, drafts can be sealed at any time, and loading can be repeated; and each of
these may fail half-way. `Action` lists what can be done. The sources of a pass belong to the action,
so that what they hold may be different at every reading.

* `load_keeps`: what passes and sealing keep, loading keeps, wherever it fails.
* `grown_act`: an action leaves a sound registry that has grown.
* `sound_run`: so does every run of actions, from the empty registry on.
-/

namespace PairGrammar.Loader

inductive Action
  /-- The first pass over a source. -/
  | declare (s : Source)
  /-- The second pass over a source. -/
  | build (s : Source)
  /-- Sealing the draft of a name. -/
  | finish (n : Name)
  /-- Reading a content line with the names that there are. -/
  | readContent (line : Text)
  /-- Loading, with what the sources hold then. -/
  | load (ss : List Source)

/-- The loader behind an action, whether that has failed or not. -/
def act (l : Loader) : Action → Loader
  | .declare s => { l with registry := (passSource Registry.declare l.registry s).2.1 }
  | .build s => { l with registry := (passSource Registry.build l.registry s).2.1 }
  | .finish n => match l.finish n with
    | .error _ => l
    | .ok (_, l') => l'
  | .readContent _ => l
  | .load ss => (load { l with sources := ss }).loader

def run (l : Loader) (as : List Action) : Loader := as.foldl act l

/-! ### What loading keeps -/

/-- Loading is made of passes, and of the sealing of all drafts behind them. -/
theorem load_keeps {P : Registry → Prop}
    (hdeclare : ∀ reg file lines, P reg → P (Registry.declare reg file lines).1)
    (hbuild : ∀ reg file lines, P reg → P (Registry.build reg file lines).1)
    (hseal : ∀ reg, P reg → P (Grammar.finishAll reg).2) {l : Loader} (hr : P l.registry) :
    P (load l).loader.registry := by
  generalize hp : passAll Registry.declare l.registry l.sources = p
  generalize hq : passAll Registry.build p.registry p.sources = q
  have hpr : P p.registry :=
    hp ▸ passAll_keeps (fun s _ lines _ reg h => hdeclare reg s.name lines h) hr
  have hqr : P q.registry :=
    hq ▸ passAll_keeps (fun s _ lines _ reg h => hbuild reg s.name lines h) hpr
  have hloader : (load l).loader = _ := congrArg Prod.snd (outcome_load hp hq)
  rw [hloader]
  cases p.failure with
  | some e => exact hpr
  | none =>
    cases p.registry.declares l.root with
    | false => exact hpr
    | true =>
      cases q.failure with
      | some e => exact hqr
      | none =>
        show P (complete _).2.registry
        unfold complete
        split
        · exact hqr
        · exact hseal _ hqr

/-! ### Sound registries -/

open Registry (Grown IsSound)

theorem grown_finish {l l' : Loader} {n : Name} {v : Variable} (h : l.registry.IsSound)
    (hf : l.finish n = .ok (v, l')) : Grown l.registry l'.registry := by
  unfold finish at hf
  split at hf
  · cases hf
  · next d hd =>
    unfold Draft.finish at hf
    by_cases hne : d.entries = []
    · rw [dif_pos hne] at hf
      cases hf
    · rw [dif_neg hne] at hf
      cases hf
      exact h.seal hd

theorem grown_act {l : Loader} (h : l.registry.IsSound) (a : Action) :
    Grown l.registry (l.act a).registry := by
  have hdeclare : ∀ reg file lines, Grown l.registry reg →
      Grown l.registry (Registry.declare reg file lines).1 :=
    fun reg file lines hr => hr.trans (Registry.grown_declare hr.sound file lines)
  have hbuild : ∀ reg file lines, Grown l.registry reg →
      Grown l.registry (Registry.build reg file lines).1 :=
    fun reg file lines hr => hr.trans (Registry.grown_build hr.sound file lines)
  have hseal : ∀ reg, Grown l.registry reg → Grown l.registry (Grammar.finishAll reg).2 :=
    fun reg hr => hr.trans (hr.sound.sealAll (Registry.sealed_finishAll reg))
  cases a with
  | declare s => exact passSource_keeps (.refl h) fun lines _ => hdeclare _ s.name lines (.refl h)
  | build s => exact passSource_keeps (.refl h) fun lines _ => hbuild _ s.name lines (.refl h)
  | finish n =>
    unfold act
    dsimp only
    split
    · exact .refl h
    · next hf => exact grown_finish h hf
  | readContent line => exact .refl h
  | load ss => exact load_keeps (l := { l with sources := ss }) hdeclare hbuild hseal (.refl h)

theorem grown_run {l : Loader} (h : l.registry.IsSound) (as : List Action) :
    Grown l.registry (l.run as).registry := by
  induction as generalizing l with
  | nil => exact .refl h
  | cons a as ih =>
    have hact : Grown l.registry (l.act a).registry := grown_act h a
    exact hact.trans (ih hact.sound)

/-- Whatever is done with a loader, and wherever it fails: its registry is sound, and goes on to be
so. A name stays, a draft gets productions at its end only, and a sealed draft does not change. -/
theorem sound_run (ss : List Source) (root : Name) (as bs : List Action) :
    let l := run { sources := ss, root := root } as
    l.registry.IsSound ∧ ∀ n d, l.registry.find? n = some d →
      d.name = n ∧ ∃ e, (l.run bs).registry.find? n = some e ∧ d.Becomes e := by
  intro l
  have hsound : l.registry.IsSound := (grown_run Registry.isSound_nil as).sound
  refine ⟨hsound, fun n d hd => ⟨(Registry.mem_of_find? hd).2, ?_⟩⟩
  exact (grown_run hsound bs).find? hd

end PairGrammar.Loader
