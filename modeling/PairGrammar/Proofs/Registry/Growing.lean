import Mathlib.Algebra.GroupWithZero.Nat
import Mathlib.Data.List.Nodup
import PairGrammar.Proofs.Piece.Reading
import PairGrammar.Proofs.Registry.Keeping

/-!
# Registries grow

Whatever a pass reads and wherever it fails, it leaves a registry behind that is sound, and that has
grown from the one before: every name is still there, its productions are those that it had with new
ones at their end, and a sealed draft is what it was. Sealing keeps a registry sound, too.

* `IsSound.enter`, `IsSound.update`, `IsSound.seal`: all ways in which a registry changes.
* `grown_declare`, `grown_build`: what is left behind a pass, whether it fails or not.
-/

namespace PairGrammar

/-- The references among the pieces are to the given names. -/
def RefersWithin (ns : List Name) (ps : List Piece) : Prop := ∀ n, .reference n ∈ ps → n ∈ ns

/-- What a draft can become: productions are added at its end, and none to a sealed draft. -/
structure Draft.Becomes (d e : Draft) : Prop where
  name : e.name = d.name
  entries : d.entries <+: e.entries
  eq_of_isSealed : d.isSealed → e = d

namespace Draft

theorem Becomes.refl (d : Draft) : d.Becomes d := ⟨rfl, List.prefix_rfl, fun _ => rfl⟩

theorem Becomes.trans {d e f : Draft} (h : d.Becomes e) (h' : e.Becomes f) : d.Becomes f where
  name := h'.name.trans h.name
  entries := h.entries.trans h'.entries
  eq_of_isSealed := by
    intro hd
    have he : e = d := h.eq_of_isSealed hd
    subst he
    exact h'.eq_of_isSealed hd

/-- An open draft becomes one with a production more. -/
theorem Becomes.concat {d : Draft} (h : d.isSealed = false) (x : Production × Nat) :
    d.Becomes { d with entries := d.entries ++ [x] } where
  name := rfl
  entries := List.prefix_append _ _
  eq_of_isSealed := by
    intro hd
    rw [h] at hd
    cases hd

theorem Becomes.seal (d : Draft) : d.Becomes { d with isSealed := true } where
  name := rfl
  entries := List.prefix_rfl
  eq_of_isSealed := by
    intro hd
    obtain ⟨name, entries, isSealed⟩ := d
    cases hd
    rfl

end Draft

namespace Registry

/-- Each draft of the first registry has become one of the second. -/
def Grows (reg reg' : Registry) : Prop := ∀ d ∈ reg, ∃ e ∈ reg', d.Becomes e

theorem Grows.refl (reg : Registry) : reg.Grows reg := fun d hd => ⟨d, hd, .refl d⟩

theorem Grows.trans {reg reg' reg'' : Registry} (h : reg.Grows reg') (h' : reg'.Grows reg'') :
    reg.Grows reg'' := by
  intro d hd
  obtain ⟨e, he, hde⟩ := h d hd
  obtain ⟨f, hf, hef⟩ := h' e he
  exact ⟨f, hf, hde.trans hef⟩

/-- The names are proper, each reference is to one of them, and of each draft there are as many
weights as productions, with a sum that is in range. -/
structure IsSound (reg : Registry) : Prop where
  proper : reg.IsProper
  lines : reg.HasLines (RefersWithin reg.names)
  length : ∀ d ∈ reg, d.weights.length = d.entries.length
  total : ∀ d ∈ reg, d.total = d.weights.sum ∧ d.total ≤ maxWeight

/-- The registry is sound and has grown from the other one. -/
structure Grown (reg₀ reg : Registry) : Prop where
  sound : reg.IsSound
  grows : reg₀.Grows reg

theorem Grown.refl {reg : Registry} (h : reg.IsSound) : Grown reg reg := ⟨h, .refl reg⟩

theorem Grown.trans {reg reg' reg'' : Registry} (h : Grown reg reg') (h' : Grown reg' reg'') :
    Grown reg reg'' := ⟨h'.sound, h.grows.trans h'.grows⟩

/-! ### Looking up names -/

theorem eq_of_name_eq {reg : Registry} (h : reg.names.Nodup) {d e : Draft} (hd : d ∈ reg)
    (he : e ∈ reg) (hname : d.name = e.name) : d = e :=
  List.inj_on_of_nodup_map h hd he hname

theorem mem_of_find? {reg : Registry} {n : Name} {d : Draft} (h : reg.find? n = some d) :
    d ∈ reg ∧ d.name = n :=
  ⟨List.mem_of_find?_eq_some h, by simpa using List.find?_some h⟩

/-- Where no two drafts have one name, a draft is found by its name. -/
theorem find?_of_mem {reg : Registry} (h : reg.names.Nodup) {d : Draft} (hd : d ∈ reg) :
    reg.find? d.name = some d := by
  obtain ⟨e, he⟩ := exists_find?_iff.2 (List.mem_map_of_mem (f := (·.name)) hd)
  obtain ⟨hmem, hname⟩ := mem_of_find? he
  rw [he, eq_of_name_eq h hmem hd hname]

theorem Grown.find? {reg reg' : Registry} (h : Grown reg reg') {n : Name} {d : Draft}
    (hd : reg.find? n = some d) : ∃ e, reg'.find? n = some e ∧ d.Becomes e := by
  obtain ⟨hmem, rfl⟩ := mem_of_find? hd
  obtain ⟨e, he, hde⟩ := h.grows d hmem
  refine ⟨e, ?_, hde⟩
  rw [← hde.name]
  exact find?_of_mem h.sound.proper.nodup he

/-! ### Changes of a registry -/

theorem HasLines.mono {C D : List Piece → Prop} {reg : Registry} (h : reg.HasLines C)
    (hCD : ∀ ps, C ps → D ps) : reg.HasLines D :=
  fun d hd x hx => ⟨hCD _ (h d hd x hx).1, hCD _ (h d hd x hx).2⟩

theorem isSound_nil : IsSound [] where
  proper := isProper_nil
  lines := by
    intro d hd
    cases hd
  length := by
    intro d hd
    cases hd
  total := by
    intro d hd
    cases hd

theorem mem_enter {reg : Registry} {n : Name} {d : Draft} (h : d ∈ reg.enter n) :
    d ∈ reg ∨ d = { name := n } := by
  unfold Registry.enter at h
  split at h
  · exact .inl h
  · simpa using h

theorem subset_enter (reg : Registry) (n : Name) : reg ⊆ reg.enter n := by
  unfold Registry.enter
  split
  · exact List.Subset.refl _
  · exact List.subset_append_left _ _

theorem IsSound.enter {reg : Registry} (h : reg.IsSound) {n : Name} (hn : n.IsValid) :
    Grown reg (reg.enter n) := by
  have hsub : reg ⊆ reg.enter n := subset_enter reg n
  refine ⟨⟨h.proper.enter hn, ?_, ?_, ?_⟩, fun d hd => ⟨d, hsub hd, .refl d⟩⟩
  · have hlines : (reg.enter n).HasLines (RefersWithin reg.names) := by
      intro d hd x hx
      rcases mem_enter hd with hd | rfl
      · exact h.lines d hd x hx
      · cases hx
    exact hlines.mono fun ps hps m hm => List.map_subset _ hsub (hps m hm)
  · intro d hd
    rcases mem_enter hd with hd | rfl
    · exact h.length d hd
    · rfl
  · intro d hd
    rcases mem_enter hd with hd | rfl
    · exact h.total d hd
    · exact ⟨rfl, Nat.zero_le _⟩

theorem mem_update {reg : Registry} {d e : Draft} (h : d ∈ reg.update e) : d = e ∨ d ∈ reg := by
  obtain ⟨d', hd', rfl⟩ := List.mem_map.1 h
  split
  · exact .inl rfl
  · exact .inr hd'

/-- A draft takes the place of the one that it has become of. -/
theorem IsSound.update {reg : Registry} (h : reg.IsSound) {n : Name} {d e : Draft}
    (hd : reg.find? n = some d) (hde : d.Becomes e)
    (hlines : ∀ x ∈ e.entries,
      RefersWithin reg.names x.1.natural ∧ RefersWithin reg.names x.1.code)
    (hrange : e.total ≤ maxWeight) : Grown reg (reg.update e) := by
  obtain ⟨hmem, -⟩ := mem_of_find? hd
  have hnames : (reg.update e).names = reg.names := names_update reg e
  refine ⟨⟨⟨?_, ?_⟩, ?_, ?_, ?_⟩, ?_⟩
  · rw [hnames]
    exact h.proper.nodup
  · rw [hnames]
    exact h.proper.valid
  · rw [hnames]
    intro f hf
    rcases mem_update hf with rfl | hf
    · exact hlines
    · exact h.lines f hf
  · intro f hf
    rcases mem_update hf with rfl | hf
    · exact List.length_map _
    · exact h.length f hf
  · intro f hf
    rcases mem_update hf with rfl | hf
    · exact ⟨rfl, hrange⟩
    · exact h.total f hf
  · intro f hf
    by_cases hname : f.name = e.name
    · have hfd : f = d := eq_of_name_eq h.proper.nodup hf hmem (hname.trans hde.name)
      refine ⟨e, List.mem_map.2 ⟨f, hf, if_pos hname⟩, ?_⟩
      rw [hfd]
      exact hde
    · exact ⟨f, List.mem_map.2 ⟨f, hf, if_neg hname⟩, .refl f⟩

/-- A production whose references are known is added at the end of its draft. -/
theorem IsSound.add {reg reg' : Registry} (hreg : reg.IsSound) {h : Header} {p : Production}
    (hp : RefersWithin reg.names p.natural ∧ RefersWithin reg.names p.code)
    (ha : reg.add h p = .ok reg') : Grown reg reg' := by
  obtain ⟨d, hd, hrange, hopen, rfl⟩ := add_eq_ok_iff.1 ha
  refine hreg.update hd (.concat hopen _) ?_ ?_
  · intro x hx
    rcases List.mem_append.1 hx with hx | hx
    · exact hreg.lines d (mem_of_find? hd).1 x hx
    · rw [List.mem_singleton.1 hx]
      exact hp
  · have htotal : Weights.total ((d.entries ++ [(p, h.weight)]).map Prod.snd) =
        d.total + h.weight := by
      rw [List.map_append, Weights.total_append]
      rfl
    show Weights.total ((d.entries ++ [(p, h.weight)]).map Prod.snd) ≤ maxWeight
    rw [htotal]
    exact hrange

theorem IsSound.seal {reg : Registry} (h : reg.IsSound) {n : Name} {d : Draft}
    (hd : reg.find? n = some d) : Grown reg (reg.update { d with isSealed := true }) := by
  have hmem : d ∈ reg := (mem_of_find? hd).1
  exact h.update hd (.seal d) (h.lines d hmem) (h.total d hmem).2

/-! ### Passes -/

/-- The names that a content line refers to are those that were known when it was read. -/
theorem IsSound.refersWithin {reg : Registry} (h : reg.IsSound) {line : Text} {ps : List Piece}
    (hps : Content reg.declares line ps) : RefersWithin reg.names ps := by
  rcases hps with ⟨-, rfl⟩ | ⟨-, hr⟩
  · intro n hn
    cases hn
  · have hnil : reg.declares [] = false := by
      rw [Bool.eq_false_iff]
      intro hd
      exact h.proper.valid [] (declares_iff.1 hd)
    have hf : Piece.Fits reg.declares none ps :=
      Piece.fits_of_read (m := .literal none) hnil trivial (Piece.readLine_eq_ok_iff_read.1 hr).2
    intro n hn
    exact declares_iff.1 (hf.proper _ hn).2.2

theorem IsSound.declareItem {reg reg' : Registry} (h : reg.IsSound) {i : Item}
    (hi : Registry.declareItem reg i = .ok reg') : Grown reg reg' := by
  rcases declareItem_cases hi with rfl | ⟨n, hn, rfl⟩
  · exact .refl h
  · exact h.enter hn

theorem grown_declare {reg : Registry} (h : reg.IsSound) (file : String) (lines : List Text) :
    Grown reg (reg.declare file lines).1 :=
  through_keeps (P := Grown reg) (fun _ _ _ _ hs hi => hs.trans (hs.sound.declareItem hi)) (.refl h)

/-- What the second pass has come to: a grown registry, and of the block that it is in a line that
refers to known names. -/
structure Building (reg₀ : Registry) (s : Registry × Progress) : Prop where
  grown : Grown reg₀ s.1
  line : s.2.HasLine (RefersWithin s.1.names)

theorem Building.buildItem {reg₀ : Registry} {s s' : Registry × Progress} (hs : Building reg₀ s)
    {i : Item} (hi : Registry.buildItem s i = .ok s') : Building reg₀ s' := by
  obtain ⟨reg, q⟩ := s
  obtain ⟨reg', q'⟩ := s'
  have hsound : reg.IsSound := hs.grown.sound
  rcases buildItem_cases hi with ⟨line, h, rfl, -, rfl, rfl⟩ |
    ⟨line, h, ps, rfl, rfl, hps, rfl, rfl⟩ | ⟨line, h, ps, qs, rfl, rfl, hqs, ha, rfl⟩
  · exact ⟨hs.grown, trivial⟩
  · exact ⟨hs.grown, hsound.refersWithin hps⟩
  · have hadd : Grown reg reg' := hsound.add (p := ⟨ps, qs⟩) ⟨hs.line, hsound.refersWithin hqs⟩ ha
    exact ⟨hs.grown.trans hadd, trivial⟩

theorem grown_build {reg : Registry} (h : reg.IsSound) (file : String) (lines : List Text) :
    Grown reg (reg.build file lines).1 := by
  have hbuilding : Building reg
      (through Registry.buildItem file (reg, .none) (Item.scanLines lines)).1 :=
    through_keeps (fun _ _ _ _ hs hi => Building.buildItem hs hi) ⟨.refl h, trivial⟩
  rw [build]
  exact hbuilding.grown

/-! ### Sealing all drafts -/

/-- Drafts one by one, each as it was or sealed. -/
abbrev Sealed : Registry → Registry → Prop :=
  List.Forall₂ fun d e => e = d ∨ e = { d with isSealed := true }

theorem sealed_finishAll (reg : Registry) : Sealed reg (Grammar.finishAll reg).2 := by
  induction reg with
  | nil => exact .nil
  | cons d reg ih =>
    rw [Grammar.finishAll]
    cases hd : d.finish with
    | error e =>
      refine .cons (.inl rfl) (List.forall₂_same.2 ?_)
      intro e _
      exact .inl rfl
    | ok x =>
      refine .cons (.inr ?_) ih
      unfold Draft.finish at hd
      split at hd
      · cases hd
      · cases hd
        rfl

theorem Sealed.names_eq {reg reg' : Registry} (h : Sealed reg reg') : reg'.names = reg.names := by
  induction h with
  | nil => rfl
  | cons hde _ ih =>
    rw [names, List.map_cons, ← names, ih]
    rcases hde with rfl | rfl
    · rfl
    · rfl

theorem IsSound.sealAll {reg reg' : Registry} (h : reg.IsSound) (hs : Sealed reg reg') :
    Grown reg reg' := by
  have hnames : reg'.names = reg.names := hs.names_eq
  have hentries : ∀ e ∈ reg', ∃ d ∈ reg, e.entries = d.entries := by
    intro e he
    obtain ⟨d, hd, hde⟩ := exists_of_forall₂ hs.flip e he
    refine ⟨d, hd, ?_⟩
    rcases hde with rfl | rfl
    · rfl
    · rfl
  refine ⟨⟨⟨?_, ?_⟩, ?_, ?_, ?_⟩, ?_⟩
  · rw [hnames]
    exact h.proper.nodup
  · rw [hnames]
    exact h.proper.valid
  · rw [hnames]
    intro e he
    obtain ⟨d, hd, hde⟩ := hentries e he
    rw [hde]
    exact h.lines d hd
  · intro e _
    exact List.length_map _
  · intro e he
    obtain ⟨d, hd, hde⟩ := hentries e he
    refine ⟨rfl, ?_⟩
    rw [Draft.total, Draft.weights, hde]
    exact (h.total d hd).2
  · intro d hd
    obtain ⟨e, he, hde⟩ := exists_of_forall₂ hs d hd
    refine ⟨e, he, ?_⟩
    rcases hde with rfl | rfl
    · exact .refl e
    · exact .seal d

end Registry

end PairGrammar
