import PairGrammar.Proofs.Evaluation.Gather
import PairGrammar.Proofs.Loader.Origin
import PairGrammar.Proofs.Pair.Tidy

/-!
# Tidy texts

If blanks stand one by one in the content lines of sources, then they do so in all texts that the
grammar of the sources generates, and no such text starts or ends with a blank. The value of a
variable is spliced into the line that refers to it, so this goes by induction along the recursion:
what rendering a production keeps is true of all pairs.

* `Grammar.Keeps.pair`: what the rendering of productions keeps holds of each pair.
* `isTidy_evaluate`: the texts that a loaded grammar generates are tidy.
-/

namespace PairGrammar

open Text (IsSpaced IsTidy)

variable {ρ : Type} [Dice ρ]

/-! ### Pairs of an evaluation -/

/-- Rendering productions of the grammar keeps a property of pairs. -/
def Grammar.Keeps (g : Grammar) (P : Pair → Prop) : Prop :=
  ∀ v ∈ g.vocabulary, ∀ p ∈ v.productions, ∀ values : Name → Option Pair,
    (∀ n pair, values n = some pair → P pair) → ∀ pair, p.render values = .ok pair → P pair

namespace Grammar.Keeps

variable {g : Grammar} {P : Pair → Prop}

theorem expand (hg : g.Keeps P) {n : Name} {d : Depth} {r r' : ρ} {value : Pair}
    (h : g.expand n d r = .ok (value, r'))
    (deeper : ∀ v, g.find? n = some v → ∀ {values r₁},
      PairGrammar.gather g (v.choose r).1.references [] d (v.choose r).2 = .ok (values, r₁) →
      ∀ x ∈ values, P x.2) : P value := by
  cases hv : g.find? n with
  | none =>
    rw [Grammar.expand, hv] at h
    cases h
  | some v =>
    rw [expand_of_find? hv] at h
    cases hx : PairGrammar.gather g (v.choose r).1.references [] d (v.choose r).2 with
    | error e =>
      rw [hx] at h
      cases h
    | ok x =>
      simp only [hx] at h
      cases hp : (v.choose r).1.render (fun m => x.1.lookup m) with
      | error m =>
        rw [hp] at h
        cases h
      | ok pair =>
        rw [hp] at h
        cases h
        have hmem : v ∈ g.vocabulary := List.mem_of_find?_eq_some hv
        refine hg v hmem _ (v.choose_mem r) _ (fun m pair hm => ?_) _ hp
        obtain ⟨l, l', hl, -⟩ := List.lookup_eq_some_iff.1 hm
        exact deeper v hv hx (m, pair) (by rw [hl]; simp)

/-- Pairs that are gathered have the property if those at the start have it. -/
theorem gather (hg : g.Keeps P) {ns : List Name} {values values' : List (Name × Pair)}
    {d : Depth} {r r' : ρ} (h : PairGrammar.gather g ns values d r = .ok (values', r'))
    (hvalues : ∀ x ∈ values, P x.2) : ∀ x ∈ values', P x.2 := by
  induction ns, values, d, r using @gather_induction ρ _ g generalizing values' r' with
  | nil values d r =>
    rw [gather_nil] at h
    cases h
    exact hvalues
  | cons n ns values d r deeper behind =>
    rw [gather_cons] at h
    split at h
    · next hd =>
      cases he : g.expand n d.enter r with
      | error e =>
        rw [he] at h
        cases h
      | ok x =>
        simp only [he] at h
        have hx : P x.1 := hg.expand he fun v hv _ _ hi => deeper hd v hv hi (by simp)
        exact behind x.1 x.2 h (List.forall_mem_cons.2 ⟨hx, hvalues⟩)
    · cases h

/-- A pair that an evaluation ends with has the property. -/
theorem pair (hg : g.Keeps P) (hclosed : g.IsClosed) {n : Name} (hn : (g.find? n).isSome)
    {d : Depth} {r : ρ} {value : Pair} (h : (g.evaluate n d r).outcome = .pair value) :
    P value := by
  rw [evaluate_eq_evaluateNested, evaluateNested_eq] at h
  rcases expand_cases hclosed hn d r with ⟨value', r', hx⟩ | ⟨m, d', r', hx⟩
  · rw [hx] at h
    cases h
    exact hg.expand hx fun v _ _ _ hi => hg.gather hi (by simp)
  · rw [hx] at h
    cases h

end Grammar.Keeps

/-! ### Content lines -/

theorem Production.render_eq_ok_iff {p : Production} {value : Name → Option Pair} {pair : Pair} :
    p.render value = .ok pair ↔
      join (fun n => (value n).map Pair.natural) p.natural = .ok pair.natural ∧
        join (fun n => (value n).map Pair.code) p.code = .ok pair.code := by
  obtain ⟨natural, code⟩ := pair
  rw [render]
  cases join (fun n => (value n).map Pair.natural) p.natural with
  | error m => simp
  | ok t =>
    cases join (fun n => (value n).map Pair.code) p.code with
    | error m => simp
    | ok u => simp

theorem Source.HasContent.endsBlank {s : Source} {line : Text} (h : s.HasContent line) :
    endsBlank line = false := by
  obtain ⟨lines, -, hline⟩ := h.exists_lines
  obtain ⟨l, -, rfl⟩ := List.mem_map.1 hline
  exact Text.endsBlank_trimRight l

/-- The pieces of a content line are written as the line without the blanks at its ends, or there
are none. -/
theorem ReadFrom.isTidy {ss : List Source} {declared : Name → Bool} {ps : List Piece}
    (h : ReadFrom ss declared ps)
    (hss : ∀ s ∈ ss, ∀ line, s.HasContent line → IsSpaced line.trim) :
    IsTidy (Piece.textAll ps) := by
  obtain ⟨s, hs, line, hline, ⟨-, rfl⟩ | ⟨-, hr⟩⟩ := h
  · exact Text.isTidy_nil
  · have hspaced : IsSpaced line.trim := hss s hs line hline
    rw [Text.trim_of_endsBlank_eq_false hline.endsBlank] at hspaced
    rw [Piece.textAll_readLine hr]
    exact ⟨Text.startsBlank_trimLeft line, Text.endsBlank_trimLeft hline.endsBlank, hspaced⟩

/-! ### Generated texts -/

/-- Rendering the productions of a loaded grammar keeps pairs tidy. -/
theorem keeps_of_loadRules {ss : List Source} {root : Name} {g : Grammar}
    (hss : ∀ s ∈ ss, ∀ line, s.HasContent line → IsSpaced line.trim)
    (hg : loadRules ss root = .ok g) :
    g.Keeps fun pair => IsTidy pair.natural ∧ IsTidy pair.code := by
  intro v hv p hp values hvalues pair hpair
  have hliteral : ∀ u, .literal u ∈ p.natural ++ p.code → u ≠ [] := by
    intro u hu
    exact proper_of_loadRules hg hv hp _ hu
  obtain ⟨hnatural, hcode⟩ := (readFrom_of_loadRules hg).2 v hv p hp
  obtain ⟨hjoin, hjoin'⟩ := Production.render_eq_ok_iff.1 hpair
  constructor
  · refine isTidy_join (fun n t ht => ?_) (fun u hu => hliteral u (List.mem_append_left _ hu))
      (hnatural.isTidy hss) hjoin
    obtain ⟨value, hvalue, rfl⟩ := Option.map_eq_some_iff.1 ht
    exact (hvalues n value hvalue).1
  · refine isTidy_join (fun n t ht => ?_) (fun u hu => hliteral u (List.mem_append_right _ hu))
      (hcode.isTidy hss) hjoin'
    obtain ⟨value, hvalue, rfl⟩ := Option.map_eq_some_iff.1 ht
    exact (hvalues n value hvalue).2

/-- If the content lines of sources have no two blanks side by side within them, then what their
grammar generates has no blank at its ends and no two blanks side by side, whichever variables have
become empty. -/
theorem isTidy_evaluate {ss : List Source} {root : Name} {g : Grammar}
    (hss : ∀ s ∈ ss, ∀ line, s.HasContent line → IsSpaced line.trim)
    (hg : loadRules ss root = .ok g) {n : Name} (hn : n ∈ g.names) {d : Depth} {r : ρ}
    {value : Pair} (h : (g.evaluate n d r).outcome = .pair value) :
    IsTidy value.natural ∧ IsTidy value.code := by
  have hkeeps := keeps_of_loadRules hss hg
  exact hkeeps.pair (isClosed_of_loadRules hg) (Grammar.isSome_find?_of_mem_names hn) h

/-- All references vanish, at the ends of lines and within them, and what `a` refers to vanishes as
well. -/
theorem isTidy_evaluate_vanishing :
    let rules : Text :=
      "#output\n _a one _a\n(_a )\n#a\n_b _b\n##empty\n#b\n##empty\n##empty".toList
    ∃ g, loadRules [.ofText rules] = .ok g ∧
      (g.evaluate Name.output ⟨3, 0⟩ (Script.ofList [] false)).outcome =
        .pair ⟨"one".toList, "()".toList⟩ ∧
      IsTidy "one".toList ∧ IsTidy "()".toList := by
  intro rules
  have hscan : ∀ x ∈ Item.scanLines (Text.lines rules), ∀ line ∈ x.2.content?,
      IsSpaced line.trim := by
    decide
  have hss : ∀ s ∈ [Source.ofText rules], ∀ line, s.HasContent line → IsSpaced line.trim := by
    rintro s hs line ⟨lines, hl, x, hx, hline⟩
    rw [List.mem_singleton.1 hs] at hl
    cases List.mem_singleton.1 hl
    exact hscan x hx line hline
  have hload : (loadRules [.ofText rules]).map Grammar.vocabulary = .ok
      [⟨Name.output, [(⟨[.reference ['a'], .literal " one ".toList, .reference ['a']],
        [.literal ['('], .reference ['a'], .literal [' ', ')']]⟩, 1)], List.cons_ne_nil _ _⟩,
      ⟨['a'], [(⟨[.reference ['b'], .literal [' '], .reference ['b']], []⟩, 1)],
        List.cons_ne_nil _ _⟩,
      ⟨['b'], [(⟨[], []⟩, 1)], List.cons_ne_nil _ _⟩] := by
    with_unfolding_all rfl
  obtain ⟨g, hg, hvocabulary⟩ := Piece.map_eq_ok hload
  have hn : Name.output ∈ g.names := by
    rw [Grammar.names, ← hvocabulary]
    decide
  have houtcome : (g.evaluate Name.output ⟨3, 0⟩ (Script.ofList [] false)).outcome =
      .pair ⟨"one".toList, "()".toList⟩ := by
    obtain ⟨vocabulary, root, hroot⟩ := g
    cases hvocabulary
    with_unfolding_all rfl
  exact ⟨g, hg, houtcome, isTidy_evaluate hss hg hn houtcome⟩

end PairGrammar
