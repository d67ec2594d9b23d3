import PairGrammar.Proofs.Block.Underway
import PairGrammar.Proofs.Registry.Unplaced

/-!
# Where a pass stops

A pass reads one line after the other, and what it has come to depends on the lines that it has
read. So it fails at a line because of this line and of the ones before it, whatever follows; or
it fails behind the last line, because the lines end within a block.

* `through_append`: a pass goes on from where it has come to.
* `Follows.run`: what a pass has come to, from the blocks that it has read.
* `stopsAt_end`, `stopsAt_refused`: the two ways in which a pass fails.
-/

namespace PairGrammar

open Item (Expected scan scanLines)

/-- The error of lines that end within a block: behind the last line a content line is missing. -/
def BreaksOff (file : String) (lines : List Text) (e : Failure) : Prop :=
  ∃ bs o which, Underway lines bs o ∧ o.expected.missing? = some which ∧
    e = .load ⟨.lineMissing which, some file, some lines.length⟩

/-- The failure of a pass belongs to line `k`, the pass having gone over the lines `read` before. It
names this line, as far as it names any, and if there were only the lines before it, at most the end
of a block would be missing. Either the pass fails like this whatever stands behind line `k`, or the
lines end within a block and `k` is the last one. -/
structure StopsAt (outcome : List Text → Option Failure) (file : String) (lines : List Text)
    (k : Nat) (read : List Text) (e : Failure) : Prop where
  pos : 1 ≤ k
  le : k ≤ lines.length
  placed : ∀ f, e = .load f → f.file = some file ∧ f.line = some (k : Int)
  front : ∀ f, outcome (lines.take (k - 1)) = some f → BreaksOff file (lines.take (k - 1)) f
  refused_or_cut : (read = lines.take (k - 1) ∧
      ∀ lines', lines'.take k = lines.take k → outcome lines' = some e) ∨
    (read = lines ∧ k = lines.length ∧ BreaksOff file lines e)

/-- A failure that knew no place is placed where it is located. -/
theorem Failure.placed_of_bare {e : Failure} (h : e.bare = e) {file : String} {line : Int}
    {f : LoadError} (hf : e.locate file line = .load f) : f.file = some file ∧ f.line = some line := by
  cases e with
  | load e =>
    have he : e.file = none := by rw [← Failure.load.inj h]
    cases hf
    rw [LoadError.locate, he]
    exact ⟨rfl, rfl⟩
  | _ => cases hf

namespace Registry

variable {σ : Type} {step : σ → Item → Except Failure σ} {s s' : σ} {e e' : Expected}
  {file : String} {l : Text} {before after lines : List Text} {k : Nat} {f : Failure}

theorem foldlM_append_eq_ok {β ε : Type} {f : σ → β → Except ε σ} {s t : σ} {bs cs : List β} :
    (bs ++ cs).foldlM f s = .ok t ↔ ∃ s', bs.foldlM f s = .ok s' ∧ cs.foldlM f s' = .ok t := by
  rw [List.foldlM_append]
  cases bs.foldlM f s with
  | error e => simp [bind, Except.bind]
  | ok s' => simp [bind, Except.bind]

/-! ### A pass line by line -/

/-- The step of a pass at a line: the one at the item that is found there, if any. -/
def stepLine (step : σ → Item → Except Failure σ) (x : σ × Expected) (l : Text) :
    Except Failure (σ × Expected) :=
  match x.2.found l.trimRight with
  | [] => .ok x
  | i :: _ => (step x.1 i).map (·, x.2.succ)

theorem stepLine_header (hl : Header.isHeader l.trimRight) :
    stepLine step (s, .header) l = (step s (.header l.trimRight)).map (·, .natural) := by
  simp [stepLine, Expected.found, hl, Expected.succ]

theorem stepLine_skipped (hl : Header.isHeader l.trimRight = false) :
    stepLine step (s, .header) l = .ok (s, .header) := by
  simp [stepLine, Expected.found, hl]

theorem stepLine_natural (hl : l.trimRight ≠ []) :
    stepLine step (s, .natural) l = (step s (.natural l.trimRight)).map (·, .code) := by
  simp [stepLine, Expected.found, hl, Expected.succ]

theorem stepLine_code (hl : l.trimRight ≠ []) :
    stepLine step (s, .code) l = (step s (.code l.trimRight)).map (·, .header) := by
  simp [stepLine, Expected.found, hl, Expected.succ]

/-- At a missing line the steps fail, and for nothing else than that. -/
def Misses (step : σ → Item → Except Failure σ) : Prop :=
  ∀ s which, step s (.missing which) = .error (.ofFault (.lineMissing which))

theorem Misses.stepLine_blank (hm : Misses step) (hl : l.trimRight = []) {which : ContentLine}
    (he : e.missing? = some which) :
    stepLine step (s, e) l = .error (.ofFault (.lineMissing which)) := by
  cases e with
  | header => cases he
  | natural =>
    cases he
    simp [stepLine, Expected.found, hl, hm s, Except.map]
  | code =>
    cases he
    simp [stepLine, Expected.found, hl, hm s, Except.map]

/-- A line is refused for the item that is found there. -/
theorem exists_of_stepLine {x : σ × Expected} (h : stepLine step x l = .error f) :
    ∃ i, step x.1 i = .error f := by
  unfold stepLine at h
  split at h
  · cases h
  · next i _ _ => exact ⟨i, Piece.map_eq_error h⟩

/-- A pass goes on behind a line, or it fails there. -/
theorem through_cons (hm : Misses step) :
    through step file s (scan e k (l :: after)) = match stepLine step (s, e) l with
      | .error f => (s, some (f.locate file ((k + 1 : Nat) : Int)))
      | .ok (s', e') => through step file s' (scan e' (k + 1) after) := by
  cases e with
  | header =>
    by_cases hl : Header.isHeader l.trimRight
    · rw [stepLine_header hl, scan, if_pos hl, through]
      cases step s (.header l.trimRight) with
      | error f => rfl
      | ok s' => rfl
    · rw [stepLine_skipped (by simpa using hl), scan, if_neg hl]
  | natural =>
    by_cases hl : l.trimRight = []
    · rw [hm.stepLine_blank hl rfl, scan, if_pos hl, through, hm]
    · rw [stepLine_natural hl, scan, if_neg hl, through]
      cases step s (.natural l.trimRight) with
      | error f => rfl
      | ok s' => rfl
  | code =>
    by_cases hl : l.trimRight = []
    · rw [hm.stepLine_blank hl rfl, scan, if_pos hl, through, hm]
    · rw [stepLine_code hl, scan, if_neg hl, through]
      cases step s (.code l.trimRight) with
      | error f => rfl
      | ok s' => rfl

theorem through_nil (hm : Misses step) :
    through step file s (scan e k []) = (s, e.missing?.map fun which =>
      .load ⟨.lineMissing which, some file, some (k : Int)⟩) := by
  cases e with
  | header => rfl
  | natural =>
    show through step file s [(k, .missing .second)] = _
    rw [through, hm]
    rfl
  | code =>
    show through step file s [(k, .missing .third)] = _
    rw [through, hm]
    rfl

/-- Behind lines that have gone well a pass goes on from where it has come to. -/
theorem through_append (hm : Misses step)
    (h : before.foldlM (stepLine step) (s, e) = .ok (s', e')) :
    through step file s (scan e k (before ++ after)) =
      through step file s' (scan e' (k + before.length) after) := by
  induction before generalizing s e k with
  | nil =>
    cases h
    rfl
  | cons l before ih =>
    obtain ⟨⟨t, d⟩, hl, h⟩ := foldlM_cons_eq_ok.1 h
    have hlength : k + 1 + before.length = k + (l :: before).length := by
      rw [List.length_cons]
      omega
    rw [List.cons_append, through_cons hm, hl, ← hlength]
    exact ih h

/-! ### Blocks that a pass has read -/

/-- What steps keep of the blocks that have been read and of the one that has been begun. -/
structure Follows (step : σ → Item → Except Failure σ) (P : List Block → Opened → σ → Prop) :
    Prop where
  header : ∀ {bs h s s'}, P bs .none s → step s (.header h) = .ok s' → P bs (.header h) s'
  natural : ∀ {bs h n s s'}, P bs (.header h) s → step s (.natural n) = .ok s' →
    P bs (.natural h n) s'
  code : ∀ {bs h n c s s'}, P bs (.natural h n) s → step s (.code c) = .ok s' →
    P (bs ++ [⟨h, n, c⟩]) .none s'

/-- What a pass has come to, where the blocks are known that it has read. -/
def Reached (P : List Block → Opened → σ → Prop) (lines : List Text) (x : σ × Expected) : Prop :=
  ∃ bs o, Underway lines bs o ∧ o.expected = x.2 ∧ P bs o x.1

variable {P : List Block → Opened → σ → Prop} {x : σ × Expected}

theorem Follows.stepLine (hP : Follows step P) (hm : Misses step) {x y : σ × Expected}
    (hx : Reached P lines x) (h : stepLine step x l = .ok y) : Reached P (lines ++ [l]) y := by
  obtain ⟨s, e⟩ := x
  obtain ⟨bs, o, hu, rfl, hs⟩ := hx
  cases o with
  | none =>
    by_cases hl : Header.isHeader l.trimRight
    · rw [Opened.expected, stepLine_header hl] at h
      obtain ⟨t, ht, rfl⟩ := Piece.map_eq_ok h
      exact ⟨bs, _, hu.concat_header hl, rfl, hP.header hs ht⟩
    · have hl : Header.isHeader l.trimRight = false := by simpa using hl
      rw [Opened.expected, stepLine_skipped hl] at h
      cases h
      exact ⟨bs, _, hu.concat_skipped hl, rfl, hs⟩
  | header line =>
    by_cases hl : l.trimRight = []
    · rw [hm.stepLine_blank hl rfl] at h
      cases h
    · rw [Opened.expected, stepLine_natural hl] at h
      obtain ⟨t, ht, rfl⟩ := Piece.map_eq_ok h
      exact ⟨bs, _, hu.concat_natural hl, rfl, hP.natural hs ht⟩
  | natural line line' =>
    by_cases hl : l.trimRight = []
    · rw [hm.stepLine_blank hl rfl] at h
      cases h
    · rw [Opened.expected, stepLine_code hl] at h
      obtain ⟨t, ht, rfl⟩ := Piece.map_eq_ok h
      exact ⟨_, _, hu.concat_code hl, rfl, hP.code hs ht⟩

theorem Follows.run (hP : Follows step P) (hm : Misses step) (hs : P [] .none s)
    (h : lines.foldlM (Registry.stepLine step) (s, .header) = .ok x) : Reached P lines x := by
  induction lines using List.reverseRecOn generalizing x with
  | nil =>
    cases h
    exact ⟨[], .none, .whole .nil, rfl, hs⟩
  | append_singleton lines l ih =>
    obtain ⟨y, hy, hl⟩ := foldlM_append_eq_ok.1 h
    obtain ⟨z, hl, hz⟩ := foldlM_cons_eq_ok.1 hl
    cases hz
    exact hP.stepLine hm (ih hy) hl

/-! ### The two ways in which a pass fails -/

/-- Steps over a list all go well, or one of them is the first that fails. -/
theorem foldlM_cases {β ε : Type} (f : σ → β → Except ε σ) (s : σ) (bs : List β) :
    (∃ t, bs.foldlM f s = .ok t) ∨ ∃ before b after t e, bs = before ++ b :: after ∧
      before.foldlM f s = .ok t ∧ f t b = .error e := by
  induction bs generalizing s with
  | nil => exact .inl ⟨s, rfl⟩
  | cons b bs ih =>
    cases hb : f s b with
    | error e => exact .inr ⟨[], b, bs, s, e, rfl, rfl, hb⟩
    | ok s' =>
      rcases ih s' with ⟨t, ht⟩ | ⟨before, c, after, t, e, rfl, ht, he⟩
      · exact .inl ⟨t, foldlM_cons_eq_ok.2 ⟨s', hb, ht⟩⟩
      · exact .inr ⟨b :: before, c, after, t, e, rfl, foldlM_cons_eq_ok.2 ⟨s', hb, ht⟩, he⟩

/-- All lines have been read: at most the rest of a block is missing. -/
theorem through_of_run (hm : Misses step)
    (h : lines.foldlM (stepLine step) (s, .header) = .ok (s', e')) :
    through step file s (scanLines lines) = (s', e'.missing?.map fun which =>
      .load ⟨.lineMissing which, some file, some (lines.length : Int)⟩) := by
  have hthrough : through step file s (scan .header 0 (lines ++ [])) =
      through step file s' (scan e' (0 + lines.length) []) := through_append hm h
  rw [List.append_nil, Nat.zero_add, through_nil hm] at hthrough
  exact hthrough

/-- A line has been refused: what stands behind it has not been read. -/
theorem through_of_refused (hm : Misses step)
    (h : before.foldlM (stepLine step) (s, .header) = .ok (s', e'))
    (hl : stepLine step (s', e') l = .error f) (after : List Text) :
    through step file s (scanLines (before ++ l :: after)) =
      (s', some (f.locate file ((before.length + 1 : Nat) : Int))) := by
  rw [scanLines, through_append hm h, Nat.zero_add, through_cons hm, hl]

theorem breaksOff_of_run (hm : Misses step)
    (h : lines.foldlM (stepLine step) (s, .header) = .ok x)
    (hf : (through step file s (scanLines lines)).2 = some f) : BreaksOff file lines f := by
  obtain ⟨s', e'⟩ := x
  have hP : Follows step fun _ _ _ => True :=
    ⟨fun _ _ => trivial, fun _ _ => trivial, fun _ _ => trivial⟩
  obtain ⟨bs, o, hu, ho, -⟩ := hP.run hm trivial h
  rw [through_of_run hm h] at hf
  obtain ⟨which, hwhich, rfl⟩ := Option.map_eq_some_iff.1 hf
  refine ⟨bs, o, which, hu, ?_, rfl⟩
  rw [ho]
  exact hwhich

/-- Where all lines have been read, the pass can fail behind the last one only. -/
theorem stopsAt_end (hm : Misses step)
    (h : lines.foldlM (stepLine step) (s, .header) = .ok x)
    (hf : (through step file s (scanLines lines)).2 = some f) :
    StopsAt (fun ls => (through step file s (scanLines ls)).2) file lines lines.length lines f := by
  have hbreaks : BreaksOff file lines f := breaksOff_of_run hm h hf
  refine ⟨?_, Nat.le_refl _, ?_, ?_, .inr ⟨rfl, rfl, hbreaks⟩⟩
  · cases lines with
    | nil => cases hf
    | cons l lines => simp
  · rintro _ rfl
    obtain ⟨_, _, which, -, -, heq⟩ := hbreaks
    cases heq
    exact ⟨rfl, rfl⟩
  · -- what is left without the last line has been read, too
    intro g hg
    rw [← List.take_append_drop (lines.length - 1) lines] at h
    obtain ⟨y, hy, -⟩ := foldlM_append_eq_ok.1 h
    exact breaksOff_of_run hm hy hg

/-- A line that is refused is refused behind the same lines wherever they stand. -/
theorem stopsAt_refused (hm : Misses step) (hbare : ∀ s i e, step s i = .error e → e.bare = e)
    (h : before.foldlM (stepLine step) (s, .header) = .ok (s', e'))
    (hl : stepLine step (s', e') l = .error f) (after : List Text) :
    StopsAt (fun ls => (through step file s (scanLines ls)).2) file (before ++ l :: after)
      (before.length + 1) before (f.locate file ((before.length + 1 : Nat) : Int)) := by
  have htake : (before ++ l :: after).take (before.length + 1 - 1) = before := by simp
  refine ⟨by omega, by simp, ?_, ?_, .inl ⟨htake.symm, ?_⟩⟩
  · intro e he
    obtain ⟨i, hi⟩ := exists_of_stepLine hl
    exact Failure.placed_of_bare (hbare s' i f hi) he
  · intro g hg
    rw [htake] at hg ⊢
    exact breaksOff_of_run hm h hg
  · intro lines' hlines
    have hfront : (before ++ l :: after).take (before.length + 1) = before ++ [l] := by
      rw [List.take_length_add_append]
      rfl
    rw [← List.take_append_drop (before.length + 1) lines', hlines, hfront, List.append_assoc]
    exact congrArg Prod.snd (through_of_refused hm h hl _)

theorem exists_stop (hm : Misses step) (hbare : ∀ s i e, step s i = .error e → e.bare = e)
    (hf : (through step file s (scanLines lines)).2 = some f) :
    ∃ k read, StopsAt (fun ls => (through step file s (scanLines ls)).2) file lines k read f ∧
      ∃ e', read.foldlM (stepLine step) (s, .header) =
        .ok ((through step file s (scanLines lines)).1, e') := by
  rcases foldlM_cases (stepLine step) (s, .header) lines with
    ⟨⟨t, d⟩, ht⟩ | ⟨before, l, after, ⟨t, d⟩, g, rfl, ht, hg⟩
  · refine ⟨lines.length, lines, stopsAt_end hm ht hf, d, ?_⟩
    rw [through_of_run hm ht]
    exact ht
  · rw [through_of_refused hm ht hg] at hf ⊢
    cases hf
    exact ⟨_, before, stopsAt_refused hm hbare ht hg after, d, ht⟩

/-! ### The two passes -/

theorem misses_declareItem : Misses declareItem := fun _ _ => rfl

theorem misses_buildItem : Misses buildItem := by
  rintro ⟨reg, _ | _ | _⟩ which
  · rfl
  · rfl
  · rfl

theorem exists_stop_declare {reg : Registry} (hf : (reg.declare file lines).2 = some f) :
    ∃ k read, StopsAt (fun ls => (reg.declare file ls).2) file lines k read f ∧
      ∃ e', read.foldlM (stepLine declareItem) (reg, .header) =
        .ok ((reg.declare file lines).1, e') :=
  exists_stop misses_declareItem (fun _ _ _ => bare_of_declareItem) hf

theorem exists_stop_build {reg : Registry} (hf : (reg.build file lines).2 = some f) :
    ∃ k read, StopsAt (fun ls => (reg.build file ls).2) file lines k read f ∧
      ∃ q e', read.foldlM (stepLine buildItem) ((reg, .none), .header) =
        .ok (((reg.build file lines).1, q), e') := by
  obtain ⟨k, read, hstop, e', hread⟩ :=
    exists_stop misses_buildItem (fun _ _ _ => bare_of_buildItem) hf
  exact ⟨k, read, hstop, _, e', hread⟩

/-- Where a pass fails is exact, and it depends on nothing but the lines up to there. -/
theorem exists_stopsAt (reg : Registry) (file : String) (lines : List Text) :
    (∀ f, (reg.declare file lines).2 = some f →
      ∃ k read, StopsAt (fun ls => (reg.declare file ls).2) file lines k read f) ∧
    ∀ f, (reg.build file lines).2 = some f →
      ∃ k read, StopsAt (fun ls => (reg.build file ls).2) file lines k read f := by
  constructor
  · intro f hf
    obtain ⟨k, read, hstop, -⟩ := exists_stop_declare hf
    exact ⟨k, read, hstop⟩
  · intro f hf
    obtain ⟨k, read, hstop, -⟩ := exists_stop_build hf
    exact ⟨k, read, hstop⟩

/-- The first pass is stopped by the end of a block, and the second one by a name in it. -/
theorem exists_stopsAt_block :
    (∃ k read, StopsAt (fun ls => (Registry.declare [] "rules.iski" ls).2) "rules.iski"
      ["#a".toList, "x _b".toList] k read
      (.load ⟨.lineMissing .third, some "rules.iski", some 2⟩)) ∧
    ∃ k read, StopsAt (fun ls => (Registry.build [{ name := ['a'] }] "rules.iski" ls).2)
      "rules.iski" ["#a".toList, "x _b".toList] k read
      (.load ⟨.undefinedVariable ['b'], some "rules.iski", some 2⟩) :=
  ⟨(exists_stopsAt [] _ _).1 _ (by decide +kernel),
    (exists_stopsAt [{ name := ['a'] }] _ _).2 _ (by decide +kernel)⟩

end Registry

end PairGrammar
