import PairGrammar.Proofs.Registry.Passes

/-!
# What passes keep

Statements about passes over any lines, also over lines on which a pass fails, and over lines that
differ from those that another pass has read. What one step keeps, a whole pass keeps; so it is
enough to know what a step can do.

* `declareItem_cases`, `add_eq_ok_iff`, `buildItem_cases`: all that a step of a pass can do.
* `isProper_declare`: the first pass enters names once each, and no names but those of headers.
* `keeps_build`: the second pass enters no name, and what holds of all content lines holds of the
  lines of the productions that it adds.
-/

namespace PairGrammar

/-- The text of a content line. -/
def Item.content? : Item → Option Text
  | natural line => some line
  | code line => some line
  | _ => none

namespace Registry

/-- What a step keeps on each of the items, a pass over them keeps, whether it fails or not. -/
theorem through_keeps {σ : Type} {step : σ → Item → Except Failure σ} {file : String}
    {P : σ → Prop} {items : List (Nat × Item)}
    (h : ∀ x ∈ items, ∀ s s', P s → step s x.2 = .ok s' → P s') {s : σ} (hs : P s) :
    P (through step file s items).1 := by
  induction items generalizing s with
  | nil => exact hs
  | cons x items ih =>
    obtain ⟨hx, hitems⟩ := List.forall_mem_cons.1 h
    rw [through]
    cases hi : step s x.2 with
    | error e => exact hs
    | ok s' => exact ih hitems (hx s s' hs hi)

/-! ### Names -/

/-- No two drafts have one name, and each name is one that a header can introduce. -/
structure IsProper (reg : Registry) : Prop where
  nodup : reg.names.Nodup
  valid : ∀ n ∈ reg.names, Name.IsValid n

theorem declares_iff {reg : Registry} {n : Name} : reg.declares n ↔ n ∈ reg.names := by
  rw [declares, List.contains_iff_mem]

theorem exists_find?_iff {reg : Registry} {n : Name} :
    (∃ d, reg.find? n = some d) ↔ n ∈ reg.names := by
  rw [← Option.isSome_iff_exists, Registry.find?, List.find?_isSome, names, List.mem_map]
  simp only [decide_eq_true_eq]

theorem declares_congr {reg reg' : Registry} (h : reg'.names = reg.names) :
    reg'.declares = reg.declares := by
  funext n
  rw [declares, declares, h]

theorem isProper_nil : IsProper [] := ⟨List.nodup_nil, by simp [names]⟩

theorem IsProper.enter {reg : Registry} (h : reg.IsProper) {n : Name} (hn : n.IsValid) :
    (reg.enter n).IsProper := by
  unfold Registry.enter
  split
  · exact h
  · next hd =>
    have hnew : n ∉ reg.names := fun hm => hd (declares_iff.2 hm)
    have hnames : (reg ++ [({ name := n } : Draft)]).names = reg.names ++ [n] := by
      rw [names, List.map_append]
      rfl
    constructor
    · rw [hnames, List.nodup_append]
      refine ⟨h.nodup, by simp, fun a ha b hb => ?_⟩
      rintro rfl
      rw [List.mem_singleton.1 hb] at ha
      exact hnew ha
    · rw [hnames]
      intro m hm
      rcases List.mem_append.1 hm with hm | hm
      · exact h.valid m hm
      · rw [List.mem_singleton.1 hm]
        exact hn

/-- A step of the first pass enters the name of a header, or does nothing. -/
theorem declareItem_cases {reg reg' : Registry} {i : Item}
    (hi : declareItem reg i = .ok reg') :
    reg' = reg ∨ ∃ n, Name.IsValid n ∧ reg' = reg.enter n := by
  cases i with
  | header line =>
    unfold declareItem at hi
    dsimp only at hi
    split at hi
    · cases hi
    · next n rest hn =>
      cases hi
      exact .inr ⟨n, Header.isValid_of_readName hn, rfl⟩
  | natural line =>
    cases hi
    exact .inl rfl
  | code line =>
    cases hi
    exact .inl rfl
  | missing which => cases hi

theorem IsProper.declareItem {reg reg' : Registry} (h : reg.IsProper) {i : Item}
    (hi : Registry.declareItem reg i = .ok reg') : reg'.IsProper := by
  rcases declareItem_cases hi with rfl | ⟨n, hn, rfl⟩
  · exact h
  · exact h.enter hn

/-- The first pass enters each name once, and no names but those that headers introduce. -/
theorem isProper_declare {reg : Registry} (h : reg.IsProper) (file : String) (lines : List Text) :
    (reg.declare file lines).1.IsProper :=
  through_keeps (fun _ _ _ _ hs hi => IsProper.declareItem hs hi) h

theorem names_update (reg : Registry) (d : Draft) : (reg.update d).names = reg.names := by
  rw [names, names, update, List.map_map]
  refine List.map_congr_left fun e _ => ?_
  by_cases h : e.name = d.name
  · simp [h]
  · simp [h]

/-! ### Steps of the second pass -/

/-- A production is added to the draft of its name as long as that takes productions and its weights
stay in range. -/
theorem add_eq_ok_iff {reg reg' : Registry} {h : Header} {p : Production} :
    reg.add h p = .ok reg' ↔ ∃ d, reg.find? h.name = some d ∧
      d.total + h.weight ≤ maxWeight ∧ d.isSealed = false ∧
      reg' = reg.update { d with entries := d.entries ++ [(p, h.weight)] } := by
  rw [add]
  cases hd : reg.find? h.name with
  | none => simp
  | some d =>
    dsimp only
    have hover : d.overflows h.weight = decide (maxWeight < d.total + h.weight) := by
      rw [Draft.overflows]
      exact decide_eq_decide.2 (by omega)
    have hweight : ¬ ((h.weight : Int) < 0) := by omega
    by_cases hw : maxWeight < d.total + h.weight
    · have : ¬ d.total + h.weight ≤ maxWeight := by omega
      simp [hover, hw, this]
    · have hle : d.total + h.weight ≤ maxWeight := by omega
      have hinsert : d.insert p h.weight = .ok (if d.isSealed then none else
          some { d with entries := d.entries ++ [(p, h.weight)] }) := by
        rw [Draft.insert, if_neg hweight, hover]
        cases d.isSealed <;> simp [hw]
      rw [hover, decide_eq_false hw, hinsert]
      cases hs : d.isSealed with
      | true => simp [hs]
      | false =>
        constructor
        · intro he
          cases he
          exact ⟨d, rfl, hle, hs, by rw [hs]⟩
        · rintro ⟨d', hd', -, -, rfl⟩
          cases hd'
          rw [hs]
          rfl

theorem names_of_add {reg reg' : Registry} {h : Header} {p : Production}
    (ha : reg.add h p = .ok reg') : reg'.names = reg.names := by
  obtain ⟨d, -, -, -, rfl⟩ := add_eq_ok_iff.1 ha
  exact names_update _ _

/-- Such a step reads a header, or a content line behind what has been read of a block; only the
last line of a block changes the registry. -/
theorem buildItem_cases {reg reg' : Registry} {q q' : Progress} {i : Item}
    (hi : buildItem (reg, q) i = .ok (reg', q')) :
    (∃ line h, i = .header line ∧ Header.read line = .ok h ∧ reg' = reg ∧ q' = .header h) ∨
    (∃ line h ps, i = .natural line ∧ q = .header h ∧ Content reg.declares line ps ∧ reg' = reg ∧
      q' = .natural h ps) ∨
    ∃ line h ps qs, i = .code line ∧ q = .natural h ps ∧ Content reg.declares line qs ∧
      reg.add h ⟨ps, qs⟩ = .ok reg' ∧ q' = .none := by
  cases i with
  | header line =>
    obtain ⟨h, hr, hx⟩ := buildItem_header_eq_ok_iff.1 hi
    cases hx
    exact .inl ⟨line, h, rfl, hr, rfl, rfl⟩
  | natural line =>
    cases q with
    | none => cases hi
    | natural h ps => cases hi
    | header h =>
      obtain ⟨ps, hps, hx⟩ := buildItem_natural_eq_ok_iff.1 hi
      cases hx
      exact .inr (.inl ⟨line, h, ps, rfl, rfl, hps, rfl, rfl⟩)
  | code line =>
    cases q with
    | none => cases hi
    | header h => cases hi
    | natural h ps =>
      obtain ⟨qs, reg'', hqs, ha, hx⟩ := buildItem_code_eq_ok_iff.1 hi
      cases hx
      exact .inr (.inr ⟨line, h, ps, qs, rfl, rfl, hqs, ha, rfl⟩)
  | missing which => cases q <;> cases hi

/-! ### What the second pass keeps -/

/-- The lines of all productions have the property. -/
def HasLines (C : List Piece → Prop) (reg : Registry) : Prop :=
  ∀ d ∈ reg, ∀ x ∈ d.entries, C x.1.natural ∧ C x.1.code

/-- The line that has been read of a block has the property. -/
def Progress.HasLine (C : List Piece → Prop) : Progress → Prop
  | .natural _ ps => C ps
  | _ => True

theorem HasLines.add {C : List Piece → Prop} {reg reg' : Registry} (hreg : reg.HasLines C)
    {h : Header} {p : Production} (hp : C p.natural ∧ C p.code) (ha : reg.add h p = .ok reg') :
    reg'.HasLines C := by
  obtain ⟨d, hd, -, -, rfl⟩ := add_eq_ok_iff.1 ha
  have hdraft : ∀ x ∈ d.entries, C x.1.natural ∧ C x.1.code :=
    hreg d (List.mem_of_find?_eq_some hd)
  intro e he x hx
  obtain ⟨e', he', rfl⟩ := List.mem_map.1 he
  split at hx
  · rcases List.mem_append.1 hx with hx | hx
    · exact hdraft x hx
    · rw [List.mem_singleton.1 hx]
      exact hp
  · exact hreg e' he' x hx

theorem HasLines.declareItem {C : List Piece → Prop} {reg reg' : Registry} (h : reg.HasLines C)
    {i : Item} (hi : Registry.declareItem reg i = .ok reg') : reg'.HasLines C := by
  rcases declareItem_cases hi with rfl | ⟨n, -, rfl⟩
  · exact h
  · unfold Registry.enter
    split
    · exact h
    · intro d hd x hx
      rcases List.mem_append.1 hd with hd | hd
      · exact h d hd x hx
      · rw [List.mem_singleton.1 hd] at hx
        cases hx

/-- The first pass adds no production. -/
theorem hasLines_declare {C : List Piece → Prop} {reg : Registry} (h : reg.HasLines C)
    (file : String) (lines : List Text) : (reg.declare file lines).1.HasLines C :=
  through_keeps (fun _ _ _ _ hs hi => HasLines.declareItem hs hi) h

/-- What the second pass has come to, as far as names and lines go. -/
structure Keeps (C : List Piece → Prop) (ns : List Name) (s : Registry × Progress) : Prop where
  names : s.1.names = ns
  lines : s.1.HasLines C
  line : s.2.HasLine C

theorem Keeps.buildItem {C : List Piece → Prop} {ns : List Name} {s s' : Registry × Progress}
    {i : Item} (hs : Keeps C ns s)
    (hC : ∀ line ps, i.content? = some line → Content s.1.declares line ps → C ps)
    (hi : Registry.buildItem s i = .ok s') : Keeps C ns s' := by
  obtain ⟨reg, q⟩ := s
  obtain ⟨reg', q'⟩ := s'
  rcases buildItem_cases hi with ⟨line, h, rfl, -, rfl, rfl⟩ |
    ⟨line, h, ps, rfl, rfl, hps, rfl, rfl⟩ | ⟨line, h, ps, qs, rfl, rfl, hqs, ha, rfl⟩
  · exact ⟨hs.names, hs.lines, trivial⟩
  · exact ⟨hs.names, hs.lines, hC line ps rfl hps⟩
  · have hlines : reg'.HasLines C := hs.lines.add (p := ⟨ps, qs⟩) ⟨hs.line, hC line qs rfl hqs⟩ ha
    exact ⟨(names_of_add ha).trans hs.names, hlines, trivial⟩

/-- The second pass enters no name, and the lines that it adds have any property that the content
lines have. -/
theorem keeps_build {C : List Piece → Prop} {reg : Registry} (hreg : reg.HasLines C)
    (file : String) {lines : List Text}
    (hC : ∀ x ∈ Item.scanLines lines, ∀ line ps, x.2.content? = some line →
      Content reg.declares line ps → C ps) :
    (reg.build file lines).1.names = reg.names ∧ (reg.build file lines).1.HasLines C := by
  have hkeeps : Keeps C reg.names
      (through Registry.buildItem file (reg, .none) (Item.scanLines lines)).1 := by
    refine through_keeps (fun x hx s s' hs hi => ?_) ⟨rfl, hreg, trivial⟩
    refine hs.buildItem (fun line ps hline hps => hC x hx line ps hline ?_) hi
    rwa [declares_congr hs.names] at hps
  rw [build]
  exact ⟨hkeeps.names, hkeeps.lines⟩

end Registry

end PairGrammar
