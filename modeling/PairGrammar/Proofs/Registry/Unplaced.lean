import PairGrammar.Proofs.Registry.Failing

/-!
# Failures without their places

The steps of a pass know nothing of files and lines; where one of them fails, the pass adds the
place. So apart from places, a pass comes to what its steps come to, one after the other, and over
lines that are laid out in blocks these are the steps over the blocks.

* `bare_of_declareItem`, `bare_of_buildItem`: a step fails without a place.
* `settle_through`: apart from the place of its failure, a pass is a fold over the items.
* `settle_declare`, `settle_build`: over lines in blocks it is a fold over the blocks.
-/

namespace PairGrammar

namespace Failure

/-- The failure without the place at which it came up. -/
def bare : Failure → Failure
  | load e => .ofFault e.fault
  | other => other

@[simp] theorem bare_bare (e : Failure) : e.bare.bare = e.bare := by
  cases e with
  | load e => rfl
  | _ => rfl

@[simp] theorem bare_locate (e : Failure) (file : String) (line : Int) :
    (e.locate file line).bare = e.bare := by
  cases e with
  | load e => exact congrArg ofFault (e.fault_locate file line)
  | _ => rfl

end Failure

/-! ### Steps fail without a place -/

theorem Header.bare_of_readName {line : Text} {e : Failure} (h : readName line = .error e) :
    e.bare = e := by
  rcases readName_eq_error h with ⟨f, rfl⟩ | ⟨rfl, -⟩
  · rfl
  · rfl

theorem Header.Flaw.bare_eq {ws : List Text} {e : Failure} (h : Header.Flaw ws e) :
    e.bare = e := by
  cases h with
  | property => rfl
  | missing => rfl
  | notDecimal => rfl
  | long => rfl
  | tooBig => rfl

theorem Header.bare_of_read {line : Text} {e : Failure} (h : read line = .error e) :
    e.bare = e := by
  cases hn : readName line with
  | error e' =>
    rw [read, hn] at h
    cases h
    exact bare_of_readName hn
  | ok x =>
    obtain ⟨n, rest⟩ := x
    exact (flaw_of_read hn h).bare_eq

namespace Registry

theorem bare_of_declareItem {reg : Registry} {i : Item} {e : Failure}
    (h : declareItem reg i = .error e) : e.bare = e := by
  cases i with
  | header line =>
    unfold declareItem at h
    dsimp only at h
    split at h
    · next hn =>
      cases h
      exact Header.bare_of_readName hn
    · cases h
  | natural line => cases h
  | code line => cases h
  | missing which =>
    cases h
    rfl

theorem bare_of_add {reg : Registry} {h : Header} {p : Production} {e : Failure}
    (ha : reg.add h p = .error e) : e.bare = e := by
  rcases add_eq_error ha with ⟨f, rfl⟩ | ⟨rfl, -⟩
  · rfl
  · rfl

theorem bare_of_buildItem {s : Registry × Progress} {i : Item} {e : Failure}
    (h : buildItem s i = .error e) : e.bare = e := by
  unfold buildItem at h
  split at h
  · split at h
    · next hr =>
      cases h
      exact Header.bare_of_read hr
    · cases h
  · split at h
    · cases h
      rfl
    · cases h
  · split at h
    · cases h
      rfl
    · split at h
      · next ha =>
        cases h
        exact bare_of_add ha
      · cases h
  · cases h
    rfl
  · cases h
    rfl

/-! ### Passes apart from places -/

/-- What a pass has come to: its state, or its failure without the place. -/
def settle {σ : Type} : σ × Option Failure → Except Failure σ
  | (s, none) => .ok s
  | (_, some e) => .error e.bare

theorem settle_through {σ : Type} {step : σ → Item → Except Failure σ}
    (hstep : ∀ s i e, step s i = .error e → e.bare = e) (file : String) (s : σ)
    (items : List (Nat × Item)) :
    settle (through step file s items) = (items.map Prod.snd).foldlM step s := by
  induction items generalizing s with
  | nil => rfl
  | cons x items ih =>
    rw [through, List.map_cons, List.foldlM_cons]
    cases hx : step s x.2 with
    | error e =>
      show Except.error (e.locate file x.1).bare = Except.error e
      rw [Failure.bare_locate, hstep s x.2 e hx]
    | ok s' => exact ih s'

variable {lines : List Text} {bs : List Block}

theorem settle_declare (reg : Registry) (file : String) (h : Layout lines bs) :
    settle (reg.declare file lines) = bs.foldlM declareBlock reg := by
  have hitems : (Item.scanLines lines).map Prod.snd = bs.flatMap Item.ofBlock :=
    Item.scan_of_layout h 0
  rw [declare, settle_through fun _ _ _ he => bare_of_declareItem he, hitems, foldlM_flatMap]
  rfl

theorem settle_build (reg : Registry) (file : String) (h : Layout lines bs) :
    settle (reg.build file lines) = bs.foldlM buildBlock reg := by
  have hitems : (Item.scanLines lines).map Prod.snd = bs.flatMap Item.ofBlock :=
    Item.scan_of_layout h 0
  have hsettle : settle (reg.build file lines) =
      (settle (through buildItem file (reg, .none) (Item.scanLines lines))).map Prod.fst := by
    rw [build]
    rcases through buildItem file (reg, .none) (Item.scanLines lines) with ⟨⟨reg', q⟩, _ | e⟩
    · rfl
    · rfl
  rw [hsettle, settle_through fun _ _ _ he => bare_of_buildItem he, hitems, foldlM_flatMap,
    map_foldlM_buildItem]

end Registry

end PairGrammar
