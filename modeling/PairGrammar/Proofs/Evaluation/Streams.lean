import PairGrammar.Files.Rules
import PairGrammar.Proofs.Evaluation.Tidy
import PairGrammar.Proofs.Pair.Streams

/-!
# Streams of generated pairs

The lines of a rule text or a rule file hold no line feed, and nothing that is done with them puts
one in: a literal is a part of a line, and a text is joined from literals and from texts that have
been joined before. So what a grammar generates are lines, and a stream of generated pairs can be
read back also where it is written as plain text.

* `not_mem_joinOnto`: a character that is in no literal and in no value is in no join.
* `isLines_keeps`: the texts that a loaded grammar generates are lines.
* `streams_read_back`: which streams can be read back.
-/

namespace PairGrammar

/-! ### Characters of joined texts -/

theorem dropBlank_subset (t : Text) : dropBlank t ⊆ t := by
  rcases dropBlank_cases t with ⟨c, r, rfl, -, hdrop⟩ | ⟨-, hdrop⟩
  · rw [hdrop]
    exact List.subset_cons_self c r
  · rw [hdrop]
    exact List.Subset.refl t

theorem not_mem_joinOnto {x : Char} {value : Name → Option Text} {done t : Text} {owed : Bool}
    {ps : List Piece} (hvalue : ∀ n v, value n = some v → x ∉ v) (hdone : x ∉ done)
    (hps : ∀ u, .literal u ∈ ps → x ∉ u) (h : joinOnto value done owed ps = .ok t) : x ∉ t := by
  fun_induction joinOnto value done owed ps with
  | case1 =>
    cases h
    exact hdone
  | case2 done owed u ps ih =>
    obtain ⟨hu, hrest⟩ : x ∉ u ∧ ∀ v, .literal v ∈ ps → x ∉ v :=
      ⟨hps u List.mem_cons_self, fun v hv => hps v (List.mem_cons_of_mem _ hv)⟩
    have hjoined : x ∉ if owed then dropBlank u else u := by
      split
      · exact fun hx => hu (dropBlank_subset u hx)
      · exact hu
    exact ih (List.not_mem_append hdone hjoined) hrest h
  | case3 => cases h
  | case4 owed done n ps hn hb ih =>
    have hlast : x ∉ done.dropLast := fun hx => hdone (List.dropLast_subset done hx)
    exact ih hlast (fun v hv => hps v (List.mem_cons_of_mem _ hv)) h
  | case5 owed done n ps hn hb ih =>
    exact ih hdone (fun v hv => hps v (List.mem_cons_of_mem _ hv)) h
  | case6 owed done n ps c r hn ih =>
    have hgrown : x ∉ done ++ c :: r := List.not_mem_append hdone (hvalue n _ hn)
    exact ih hgrown (fun v hv => hps v (List.mem_cons_of_mem _ hv)) h

/-- A literal is a part of what its pieces are read from. -/
theorem subset_textAll {ps : List Piece} {u : Text} (h : .literal u ∈ ps) :
    u ⊆ Piece.textAll ps := by
  intro c hc
  exact List.mem_flatMap.2 ⟨.literal u, h, hc⟩

/-! ### Sources that split texts into lines -/

/-- The lines of a text, or what reading a file gives. -/
def Reading.IsSplit (r : Reading) : Prop :=
  (∃ t : Text, r = .ok t.lines) ∨ ∃ (tree : FileTree) (path : Path), r = tree.readText path

/-- At each reading the source is a text or a file. -/
def Source.IsSplit (s : Source) : Prop := ∀ r ∈ s.now :: s.later, Reading.IsSplit r

theorem Reading.IsSplit.newline_not_mem {lines : List Text} (h : IsSplit (.ok lines)) {l : Text}
    (hl : l ∈ lines) : '\n' ∉ l := by
  rcases h with ⟨t, ht⟩ | ⟨tree, path, hread⟩
  · cases ht
    exact Text.newline_not_mem_lines hl
  · unfold FileTree.readText at hread
    split at hread
    · cases hread
    · cases hread
    · split at hread
      · cases hread
      · cases hread
        exact Text.newline_not_mem_lines hl

theorem Source.HasContent.newline_not_mem {s : Source} (hs : s.IsSplit) {line : Text}
    (h : s.HasContent line) : '\n' ∉ line := by
  obtain ⟨lines, hlines, hline⟩ := h.exists_lines
  obtain ⟨l, hl, rfl⟩ := List.mem_map.1 hline
  have hnewline : '\n' ∉ l := (hs _ hlines).newline_not_mem hl
  intro hmem
  have hblank : '\n' ∈ l.reverse := (List.dropWhile_sublist _).subset (List.mem_reverse.1 hmem)
  exact hnewline (List.mem_reverse.1 hblank)

theorem ReadFrom.newline_not_mem {ss : List Source} (hss : ∀ s ∈ ss, s.IsSplit)
    {declared : Name → Bool} {ps : List Piece} (h : ReadFrom ss declared ps) {u : Text}
    (hu : .literal u ∈ ps) : '\n' ∉ u := by
  obtain ⟨s, hs, line, hline, ⟨-, rfl⟩ | ⟨-, hr⟩⟩ := h
  · cases hu
  · have hpart : u ⊆ line.trimLeft := by
      rw [← Piece.textAll_readLine hr]
      exact subset_textAll hu
    intro hmem
    have hline' : '\n' ∈ line := (List.dropWhile_sublist _).subset (hpart hmem)
    exact hline.newline_not_mem (hss s hs) hline'

/-! ### Generated texts are lines -/

theorem isLines_keeps {ss : List Source} (hss : ∀ s ∈ ss, s.IsSplit) {root : Name} {g : Grammar}
    (hg : loadRules ss root = .ok g) : g.Keeps Pair.IsLines := by
  intro v hv p hp values hvalues pair hpair
  obtain ⟨hnatural, hcode⟩ := (readFrom_of_loadRules hg).2 v hv p hp
  obtain ⟨hjoin, hjoin'⟩ := Production.render_eq_ok_iff.1 hpair
  constructor
  · refine not_mem_joinOnto (fun n t ht => ?_) List.not_mem_nil
      (fun u hu => hnatural.newline_not_mem hss hu) hjoin
    obtain ⟨value, hvalue, rfl⟩ := Option.map_eq_some_iff.1 ht
    exact (hvalues n value hvalue).1
  · refine not_mem_joinOnto (fun n t ht => ?_) List.not_mem_nil
      (fun u hu => hcode.newline_not_mem hss hu) hjoin'
    obtain ⟨value, hvalue, rfl⟩ := Option.map_eq_some_iff.1 ht
    exact (hvalues n value hvalue).2

/-- The pair is the value of a variable in a grammar that has been loaded from texts and files. -/
def Pair.IsGenerated (p : Pair) : Prop :=
  ∃ ss root g, (∀ s ∈ ss, Source.IsSplit s) ∧ loadRules ss root = .ok g ∧
    ∃ (ρ : Type) (_ : Dice ρ) (n : Name) (d : Depth) (r : ρ), n ∈ g.names ∧
      (g.evaluate n d r).outcome = .pair p

theorem Pair.IsGenerated.isLines {p : Pair} (h : p.IsGenerated) : p.IsLines := by
  obtain ⟨ss, root, g, hss, hg, ρ, _, n, d, r, hn, hp⟩ := h
  exact (isLines_keeps hss hg).pair (isClosed_of_loadRules hg)
    (Grammar.isSome_find?_of_mem_names hn) hp

/-- Generated texts have no line feeds. So a plain stream of generated pairs has three lines for
each of them, and it determines them; and a stream of objects determines its pairs, with or without
line feeds between them, whatever their texts are. -/
theorem streams_read_back :
    (∀ p : Pair, p.IsGenerated → '\n' ∉ p.natural ∧ '\n' ∉ p.code) ∧
    (∀ ps : List Pair, (∀ p ∈ ps, p.IsGenerated) →
      Text.lines (Pair.stream .plain ps) = ps.flatMap fun p => [p.natural, p.code, []]) ∧
    (∀ ps qs : List Pair, (∀ p ∈ ps, p.IsGenerated) → (∀ q ∈ qs, q.IsGenerated) →
      Pair.stream .plain ps = Pair.stream .plain qs → ps = qs) ∧
    (∀ p : Pair, '\n' ∉ p.format .json) ∧
    (∀ ps qs : List Pair, Pair.stream .json ps = Pair.stream .json qs → ps = qs) ∧
    ∀ ps qs : List Pair,
      ps.flatMap (·.format .json) = qs.flatMap (·.format .json) → ps = qs := by
  refine ⟨fun p hp => hp.isLines, fun ps hps => ?_, fun ps qs hps hqs h => ?_,
    Pair.newline_not_mem_json, fun ps qs h => Pair.stream_json_injective h, fun ps qs h => ?_⟩
  · exact Pair.lines_stream fun p hp => (hps p hp).isLines
  · exact Pair.stream_plain_injective (fun p hp => (hps p hp).isLines)
      (fun q hq => (hqs q hq).isLines) h
  · exact Pair.selfDelimiting_json.flatMap_injective Pair.json_ne_nil h

/-- A pair without natural text is generated, and written twice. -/
theorem streams_read_back_empty :
    let p : Pair := ⟨[], ['"']⟩
    p.IsGenerated ∧ Text.lines (Pair.stream .plain [p, p]) = [[], ['"'], [], [], ['"'], []] ∧
      ∀ ps : List Pair, (∀ q ∈ ps, q.IsGenerated) →
        Pair.stream .plain ps = Pair.stream .plain [p, p] → ps = [p, p] := by
  intro p
  have hload : (loadRules [.ofText "#output\n##empty\n_a\n#a\nx\n\"".toList]).map
      Grammar.vocabulary = .ok
        [⟨Name.output, [(⟨[], [.reference ['a']]⟩, 1)], List.cons_ne_nil _ _⟩,
          ⟨['a'], [(⟨[.literal ['x']], [.literal ['"']]⟩, 1)], List.cons_ne_nil _ _⟩] := by
    with_unfolding_all rfl
  obtain ⟨g, hg, hvocabulary⟩ := Piece.map_eq_ok hload
  have hsplit : ∀ s ∈ [Source.ofText "#output\n##empty\n_a\n#a\nx\n\"".toList], s.IsSplit := by
    intro s hs r hr
    rw [List.mem_singleton.1 hs] at hr
    exact .inl ⟨_, List.mem_singleton.1 hr⟩
  have hn : Name.output ∈ g.names := by
    rw [Grammar.names, ← hvocabulary]
    decide
  have houtcome : (g.evaluate Name.output ⟨3, 0⟩ (Script.ofList [] false)).outcome = .pair p := by
    obtain ⟨vocabulary, root, hroot⟩ := g
    cases hvocabulary
    with_unfolding_all rfl
  have hp : p.IsGenerated :=
    ⟨_, _, g, hsplit, hg, Script, inferInstance, Name.output, ⟨3, 0⟩, _, hn, houtcome⟩
  have hps : ∀ q ∈ [p, p], q.IsGenerated := by
    intro q hq
    rcases List.mem_pair.1 hq with rfl | rfl
    · exact hp
    · exact hp
  obtain ⟨-, hlines, hplain, -⟩ := streams_read_back
  exact ⟨hp, hlines [p, p] hps, fun ps hgenerated h => hplain ps [p, p] hgenerated hps h⟩

end PairGrammar
