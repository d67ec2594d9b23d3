import PairGrammar.Proofs.Grammar.Closed
import PairGrammar.Proofs.Loader.Loading
import PairGrammar.Proofs.Piece.Reading
import PairGrammar.Proofs.Registry.Keeping

/-!
# Where the lines of a grammar come from

Whatever sources hold, and even if that changes from one reading to the next: in a grammar that has
been loaded from them each line of a production stands for a content line of one of the sources, and
was read with the names of the grammar declared.

* `Loader.complete_eq_ok`: the variables of a grammar are the drafts, one by one.
* `readFrom_of_loadRules`: where the lines of a loaded grammar come from.
* `isClosed_of_loadRules`: a loaded grammar is closed.
-/

namespace PairGrammar

/-- The content lines that a scan comes upon are lines without the blanks at their ends. -/
theorem Item.mem_of_mem_scan {e : Expected} {k : Nat} {ls : List Text} {x : Nat × Item}
    (hx : x ∈ scan e k ls) {line : Text} (hline : x.2.content? = some line) :
    line ∈ ls.map Text.trimRight := by
  fun_induction scan e k ls with
  | case1 => cases hx
  | case2 | case3 | case6 | case8 =>
    -- a line is missing
    rw [List.mem_singleton.1 hx] at hline
    cases hline
  | case4 k l ls line' hh ih =>
    rcases List.mem_cons.1 hx with rfl | hx
    · cases hline
    · exact List.mem_cons_of_mem _ (ih hx)
  | case5 k l ls line' hh ih => exact List.mem_cons_of_mem _ (ih hx)
  | case7 k l ls line' hne ih | case9 k l ls line' hne ih =>
    rcases List.mem_cons.1 hx with rfl | hx
    · rw [← Option.some.inj hline]
      exact List.mem_cons_self
    · exact List.mem_cons_of_mem _ (ih hx)

/-- The line is a content line of some reading of the source. -/
def Source.HasContent (s : Source) (line : Text) : Prop :=
  ∃ lines, .ok lines ∈ s.now :: s.later ∧
    ∃ x ∈ Item.scanLines lines, x.2.content? = some line

theorem Source.HasContent.exists_lines {s : Source} {line : Text} (h : s.HasContent line) :
    ∃ lines, .ok lines ∈ s.now :: s.later ∧ line ∈ lines.map Text.trimRight := by
  obtain ⟨lines, hl, x, hx, hline⟩ := h
  exact ⟨lines, hl, Item.mem_of_mem_scan hx hline⟩

theorem Source.HasContent.of_read {s : Source} {line : Text} (h : s.read.2.HasContent line) :
    s.HasContent line := by
  obtain ⟨name, now, later⟩ := s
  cases later with
  | nil => exact h
  | cons r later =>
    obtain ⟨lines, hl, hx⟩ := h
    exact ⟨lines, List.mem_cons_of_mem _ hl, hx⟩

/-- The pieces stand for a content line of one of the sources. -/
def ReadFrom (ss : List Source) (declared : Name → Bool) (ps : List Piece) : Prop :=
  ∃ s ∈ ss, ∃ line, s.HasContent line ∧ Content declared line ps

/-- The pieces of a content line are proper: their literals have a text and their references are
declared. -/
theorem Content.proper {declared : Name → Bool} (h0 : declared [] = false) {line : Text}
    {ps : List Piece} (h : Content declared line ps) : ∀ p ∈ ps, Piece.IsProper declared p := by
  rcases h with ⟨-, rfl⟩ | ⟨-, hr⟩
  · intro p hp
    cases hp
  · obtain ⟨-, hm⟩ := Piece.readLine_eq_ok_iff_read.1 hr
    have hf : Piece.Fits declared none ps :=
      Piece.fits_of_read (m := .literal none) h0 trivial hm
    exact hf.proper

/-! ### Passes over sources of any kind -/

namespace Loader

/-- What a pass keeps on the lines that a source gives, it keeps on the source. -/
theorem passSource_keeps {pass : Pass} {P : Registry → Prop} {reg : Registry} (hr : P reg)
    {s : Source} (h : ∀ lines, s.now = .ok lines → P (pass reg s.name lines).1) :
    P (passSource pass reg s).2.1 := by
  rw [passSource_eq]
  cases hnow : s.now with
  | error e => exact hr
  | ok lines => exact h lines hnow

/-- So does a pass over all sources. -/
theorem passAll_keeps {pass : Pass} {P : Registry → Prop} {ss : List Source}
    (h : ∀ s ∈ ss, ∀ lines, s.now = .ok lines → ∀ reg, P reg → P (pass reg s.name lines).1)
    {reg : Registry} (hr : P reg) : P (passAll pass reg ss).registry := by
  induction ss generalizing reg with
  | nil => exact hr
  | cons s ss ih =>
    obtain ⟨hs, hss⟩ := List.forall_mem_cons.1 h
    have hpass : P (passSource pass reg s).2.1 :=
      passSource_keeps hr fun lines hnow => hs lines hnow reg hr
    rw [passAll]
    split
    · next hp =>
      rw [hp] at hpass
      exact hpass
    · next hp =>
      rw [hp] at hpass
      exact ih hss hpass

/-- A pass leaves each source as it was or as it is behind one reading. -/
theorem mem_sources_passAll {pass : Pass} {reg : Registry} {ss : List Source} {s : Source}
    (h : s ∈ (passAll pass reg ss).sources) : ∃ s₀ ∈ ss, s = s₀ ∨ s = s₀.read.2 := by
  induction ss generalizing reg with
  | nil => cases h
  | cons s₁ ss ih =>
    have hread : (passSource pass reg s₁).1 = s₁.read.2 := by rw [passSource_eq]
    rw [passAll] at h
    split at h
    · next hp =>
      rw [hp] at hread
      rcases List.mem_cons.1 h with rfl | h
      · exact ⟨s₁, List.mem_cons_self, .inr hread⟩
      · exact ⟨s, List.mem_cons_of_mem _ h, .inl rfl⟩
    · next hp =>
      rw [hp] at hread
      rcases List.mem_cons.1 h with rfl | h
      · exact ⟨s₁, List.mem_cons_self, .inr hread⟩
      · obtain ⟨s₀, hs₀, hs⟩ := ih h
        exact ⟨s₀, List.mem_cons_of_mem _ hs₀, hs⟩

/-! ### From drafts to variables -/

theorem Matches.exists_draft {ds : List Draft} {vs : List Variable} (h : Matches ds vs)
    {v : Variable} (hv : v ∈ vs) : ∃ d ∈ ds, v.entries = d.entries := by
  obtain ⟨d, hd, hdv⟩ := exists_of_forall₂ h.flip v hv
  exact ⟨d, hd, hdv.2⟩

/-- If all drafts can be sealed, the variables of the grammar are the drafts one by one. -/
theorem complete_eq_ok {l : Loader} {g : Grammar} (hn : l.registry.names.Nodup)
    (h : (complete l).1 = .ok g) : Matches l.registry g.vocabulary := by
  rcases complete_cases hn with ⟨d, -, -, hc⟩ | ⟨vs, hall, hc⟩
  · rw [hc] at h
    cases h
  · rw [hc] at h
    split at h
    · cases h
      exact hall
    · cases h

end Loader

/-! ### Loaded grammars -/

/-- The names of a loaded grammar are distinct names of headers, and each line of its productions
stands for a content line of one of the sources. -/
theorem readFrom_of_loadRules {ss : List Source} {root : Name} {g : Grammar}
    (h : loadRules ss root = .ok g) :
    (g.names.Nodup ∧ ∀ n ∈ g.names, n.IsValid) ∧ ∀ v ∈ g.vocabulary, ∀ p ∈ v.productions,
      ReadFrom ss g.contains p.natural ∧ ReadFrom ss g.contains p.code := by
  obtain ⟨p, q, hp, -, -, hq, -, hc⟩ := Loader.load_eq_ok_iff.1 h
  dsimp only at hp
  -- the first pass enters proper names and adds nothing
  have hproper : p.registry.IsProper := by
    rw [← hp]
    refine Loader.passAll_keeps (fun s _ lines _ reg hr => ?_) Registry.isProper_nil
    exact Registry.isProper_declare hr s.name lines
  have hempty : p.registry.HasLines (ReadFrom ss p.registry.declares) := by
    rw [← hp]
    refine Loader.passAll_keeps (P := Registry.HasLines _) (fun s _ lines _ reg hr => ?_) ?_
    · exact Registry.hasLines_declare hr s.name lines
    · intro d hd
      cases hd
  -- the second pass adds what it reads from content lines
  have hbuilt : q.registry.names = p.registry.names ∧
      q.registry.HasLines (ReadFrom ss p.registry.declares) := by
    rw [← hq]
    refine Loader.passAll_keeps (P := fun reg => reg.names = p.registry.names ∧ reg.HasLines _)
      (fun s hs lines hnow reg hr => ?_) ⟨rfl, hempty⟩
    have hfrom : ∀ x ∈ Item.scanLines lines, ∀ line ps, x.2.content? = some line →
        Content reg.declares line ps → ReadFrom ss p.registry.declares ps := by
      intro x hx line ps hline hps
      have hcontent : s.HasContent line := ⟨lines, hnow ▸ List.mem_cons_self, x, hx, hline⟩
      rw [Registry.declares_congr hr.1] at hps
      rw [← hp] at hs
      obtain ⟨s₀, hs₀, rfl | rfl⟩ := Loader.mem_sources_passAll hs
      · exact ⟨s, hs₀, line, hcontent, hps⟩
      · exact ⟨s₀, hs₀, line, hcontent.of_read, hps⟩
    obtain ⟨hnames, hlines⟩ := Registry.keeps_build hr.2 s.name hfrom
    exact ⟨hnames.trans hr.1, hlines⟩
  have hmatch : Loader.Matches q.registry g.vocabulary :=
    Loader.complete_eq_ok (by rw [hbuilt.1]; exact hproper.nodup) hc
  have hnames : g.names = p.registry.names := hmatch.names_eq.trans hbuilt.1
  have hdeclares : g.contains = p.registry.declares := by
    funext n
    rw [Grammar.contains, Registry.declares, hnames]
  rw [hnames, hdeclares]
  refine ⟨⟨hproper.nodup, hproper.valid⟩, fun v hv pr hpr => ?_⟩
  obtain ⟨x, hx, rfl⟩ := List.mem_map.1 hpr
  obtain ⟨d, hd, hentries⟩ := hmatch.exists_draft hv
  rw [hentries] at hx
  exact hbuilt.2 d hd x hx

/-- The pieces of a loaded grammar are proper. -/
theorem proper_of_loadRules {ss : List Source} {root : Name} {g : Grammar}
    (h : loadRules ss root = .ok g) {v : Variable} (hv : v ∈ g.vocabulary) {p : Production}
    (hp : p ∈ v.productions) : ∀ q ∈ p.natural ++ p.code, Piece.IsProper g.contains q := by
  obtain ⟨⟨-, hvalid⟩, hlines⟩ := readFrom_of_loadRules h
  have hnil : g.contains [] = false := by
    rw [Bool.eq_false_iff]
    intro hc
    exact hvalid [] (List.contains_iff_mem.1 hc)
  obtain ⟨⟨_, -, _, -, hnatural⟩, ⟨_, -, _, -, hcode⟩⟩ := hlines v hv p hp
  intro q hq
  rcases List.mem_append.1 hq with hq | hq
  · exact hnatural.proper hnil q hq
  · exact hcode.proper hnil q hq

/-- A loaded grammar is closed. -/
theorem isClosed_of_loadRules {ss : List Source} {root : Name} {g : Grammar}
    (h : loadRules ss root = .ok g) : g.IsClosed := by
  refine Grammar.isClosed_of_vocabulary fun v hv m hm => ?_
  obtain ⟨p, hp, hm⟩ := List.mem_flatMap.1 hm
  have hpiece : .reference m ∈ p.natural ++ p.code := by
    rw [List.mem_append]
    exact Production.mem_references.1 hm
  have hdeclared : g.contains m := (proper_of_loadRules h hv hp _ hpiece).2.2
  exact Grammar.isSome_find?_of_mem_names (List.contains_iff_mem.1 hdeclared)

end PairGrammar
