import PairGrammar.Proofs.Block.Division
import PairGrammar.Proofs.Registry.Stopping

/-!
# What a scan accepts

A pass does something at every line of a block. Here it is anything that does not fail: so a pass
can end only because a content line is missing, and it comes through if and only if the lines can be
divided into blocks.

* `Handlers.follows_step`: what a pass has come to, from the blocks that it has read.
* `Handlers.through_of_layout`: over lines in blocks, each line is handled once.
* `Handlers.through_cases`: elsewhere a pass ends within a block.
* `Handlers.through_isDivided`: both, of the lines that can be divided and of all others.
-/

namespace PairGrammar

open Item (Expected scanLines)
open Registry (through stepLine Follows Misses)

/-- What is done at the lines of a block, none of which fails. -/
structure Handlers (σ : Type) where
  onHeader : σ → Text → σ
  onNatural : σ → Text → σ
  onCode : σ → Text → σ

namespace Handlers

variable {σ : Type} (h : Handlers σ)

/-- The handlers as a step of a pass. -/
def step (s : σ) : Item → Except Failure σ
  | .header l => .ok (h.onHeader s l)
  | .natural l => .ok (h.onNatural s l)
  | .code l => .ok (h.onCode s l)
  | .missing which => .error (.ofFault (.lineMissing which))

/-- The three lines of a block are handled, one after the other. -/
def block (s : σ) (b : Block) : σ := h.onCode (h.onNatural (h.onHeader s b.header) b.natural) b.code

/-- The lines of a block that has been begun are handled. -/
def opened (s : σ) : Opened → σ
  | .none => s
  | .header l => h.onHeader s l
  | .natural l l' => h.onNatural (h.onHeader s l) l'

/-- Whole blocks are handled, and what there is of one more. -/
def behind (s : σ) (bs : List Block) (o : Opened) : σ := h.opened (bs.foldl h.block s) o

theorem misses_step : Misses h.step := fun _ _ => rfl

/-- Only a missing line ends a pass. -/
theorem step_eq_error {s : σ} {i : Item} {f : Failure} (hi : h.step s i = .error f) :
    ∃ which, i = .missing which ∧ f = .ofFault (.lineMissing which) := by
  cases i with
  | missing which =>
    cases hi
    exact ⟨which, rfl, rfl⟩
  | _ => cases hi

theorem bare_of_step {s : σ} {i : Item} {f : Failure} (hi : h.step s i = .error f) :
    f.bare = f := by
  obtain ⟨which, -, rfl⟩ := h.step_eq_error hi
  rfl

theorem foldlM_blocks (bs : List Block) (s : σ) :
    (bs.flatMap Item.ofBlock).foldlM h.step s = .ok (bs.foldl h.block s) := by
  induction bs generalizing s with
  | nil => rfl
  | cons b bs ih =>
    rw [List.flatMap_cons, List.foldlM_append]
    exact ih (h.block s b)

theorem follows_step (s₀ : σ) : Follows h.step fun bs o s => s = h.behind s₀ bs o where
  header := by
    rintro bs l s s' rfl hs
    cases hs
    rfl
  natural := by
    rintro bs l l' s s' rfl hs
    cases hs
    rfl
  code := by
    rintro bs l l' l'' s s' rfl hs
    cases hs
    rw [behind, behind, List.foldl_append]
    rfl

variable {lines before after : List Text} {l : Text} {s s₀ : σ} {e : Expected} {f : Failure}
  {x : σ × Expected}

/-- Where lines have gone well, all that has been read of blocks has been handled. -/
theorem exists_of_run (hrun : lines.foldlM (stepLine h.step) (s₀, .header) = .ok x) :
    ∃ bs o, Underway lines bs o ∧ o.expected = x.2 ∧ x.1 = h.behind s₀ bs o :=
  (h.follows_step s₀).run h.misses_step rfl hrun

/-- A line is refused because it is blank where a content line has to be. -/
theorem exists_of_stepLine (hl : stepLine h.step (s, e) l = .error f) :
    ∃ which, e.missing? = some which ∧ l.trimRight = [] ∧ f = .ofFault (.lineMissing which) := by
  cases e with
  | header =>
    by_cases hh : Header.isHeader l.trimRight
    · rw [Registry.stepLine_header hh] at hl
      cases hl
    · rw [Registry.stepLine_skipped (by simpa using hh)] at hl
      cases hl
  | natural =>
    by_cases hb : l.trimRight = []
    · rw [h.misses_step.stepLine_blank hb rfl] at hl
      cases hl
      exact ⟨.second, rfl, hb, rfl⟩
    · rw [Registry.stepLine_natural hb] at hl
      cases hl
  | code =>
    by_cases hb : l.trimRight = []
    · rw [h.misses_step.stepLine_blank hb rfl] at hl
      cases hl
      exact ⟨.third, rfl, hb, rfl⟩
    · rw [Registry.stepLine_code hb] at hl
      cases hl

/-- How a pass ends within a block: the lines `read` have been handled, and then there is a blank
line, or nothing more. -/
structure EndsWithin (file : String) (s₀ : σ) (lines : List Text) (bs : List Block) (o : Opened)
    (which : ContentLine) (read after : List Text) : Prop where
  split : read ++ after = lines
  underway : Underway read bs o
  missing : o.expected.missing? = some which
  blank : ∀ l ∈ after.head?, l.trimRight = []
  result : through h.step file s₀ (scanLines lines) = (h.behind s₀ bs o,
    some (.load ⟨.lineMissing which, some file, some (read ++ after.take 1).length⟩))

/-- A pass comes through, or it ends within a block. -/
theorem through_cases (file : String) (s₀ : σ) (lines : List Text) :
    (∃ bs, Layout lines bs ∧
        through h.step file s₀ (scanLines lines) = (bs.foldl h.block s₀, none)) ∨
      ∃ bs o which read after, h.EndsWithin file s₀ lines bs o which read after := by
  rcases Registry.foldlM_cases (stepLine h.step) (s₀, .header) lines with
    ⟨⟨s, e⟩, hrun⟩ | ⟨before, l, after, ⟨s, e⟩, f, rfl, hrun, hl⟩
  · have hthrough : through h.step file s₀ (scanLines lines) = _ :=
      Registry.through_of_run h.misses_step hrun
    obtain ⟨bs, o, hu, rfl, rfl⟩ := h.exists_of_run hrun
    cases hmissing : o.expected.missing? with
    | none =>
      rw [hmissing] at hthrough
      cases o with
      | none => exact .inl ⟨bs, hu.layout, hthrough⟩
      | header | natural => cases hmissing
    | some which =>
      rw [hmissing] at hthrough
      refine .inr ⟨bs, o, which, lines, [], List.append_nil lines, hu, hmissing, ?_, ?_⟩
      · intro l hl
        cases hl
      · rw [hthrough, List.take_nil, List.append_nil]
        rfl
  · obtain ⟨bs, o, hu, rfl, rfl⟩ := h.exists_of_run hrun
    obtain ⟨which, hmissing, hblank, rfl⟩ := h.exists_of_stepLine hl
    refine .inr ⟨bs, o, which, before, l :: after, rfl, hu, hmissing, ?_, ?_⟩
    · intro m hm
      cases hm
      exact hblank
    · rw [Registry.through_of_refused h.misses_step hrun hl after, List.length_append]
      rfl

/-- Over lines in blocks, every line of a block is handled once, and in order. -/
theorem through_of_layout {bs : List Block} (hbs : Layout lines bs) (file : String) (s₀ : σ) :
    through h.step file s₀ (scanLines lines) = (bs.foldl h.block s₀, none) := by
  have hitems : (scanLines lines).map Prod.snd = bs.flatMap Item.ofBlock :=
    Item.scan_of_layout hbs 0
  have hsettle : Registry.settle (through h.step file s₀ (scanLines lines)) =
      ((scanLines lines).map Prod.snd).foldlM h.step s₀ :=
    Registry.settle_through (fun _ _ _ => h.bare_of_step) file s₀ _
  rw [hitems, foldlM_blocks] at hsettle
  rcases hthrough : through h.step file s₀ (scanLines lines) with ⟨s, _ | f⟩
  · rw [hthrough] at hsettle
    cases hsettle
    rfl
  · rw [hthrough] at hsettle
    cases hsettle

/-- A pass over lines that can be divided into blocks, which is possible in one way only, handles
every line of these blocks once, trimmed and in order, and comes through; and it comes through over
no other lines. Over those it ends within a block: where a content line is blank, or behind the last
line. What has been handled before is handled, and the error is the second or the third line of the
block, whichever is missing. -/
theorem through_isDivided (file : String) (s₀ : σ) (lines : List Text) :
    ((through h.step file s₀ (scanLines lines)).2 = none ↔ ∃ d, IsDivided lines d) ∧
    (∀ d, IsDivided lines d → (∀ e, IsDivided lines e → e = d) ∧
      through h.step file s₀ (scanLines lines) =
        ((d.blocks.map Prod.fst).foldl h.block s₀, none)) ∧
    ((∀ d, ¬ IsDivided lines d) →
      ∃ bs o which read after, h.EndsWithin file s₀ lines bs o which read after) := by
  refine ⟨?_, fun d hd => ⟨fun e he => he.unique hd, h.through_of_layout hd.layout file s₀⟩,
    fun hnone => ?_⟩
  · rw [exists_isDivided_iff]
    constructor
    · intro hthrough
      rcases h.through_cases file s₀ lines with ⟨bs, hbs, -⟩ | ⟨bs, o, which, read, after, hends⟩
      · exact ⟨bs, hbs⟩
      · rw [hends.result] at hthrough
        cases hthrough
    · rintro ⟨bs, hbs⟩
      rw [h.through_of_layout hbs]
  · rcases h.through_cases file s₀ lines with ⟨bs, hbs, -⟩ | hends
    · obtain ⟨d, hd⟩ := exists_isDivided_iff.2 ⟨bs, hbs⟩
      exact absurd hd (hnone d)
    · exact hends

/-- Headers and the empty line count by their place: `##empty` is skipped in front of the block and
behind it, and stands for a content line within, and `#b` is a content line, too. With one more
header, and a blank line behind it, nothing can be divided. -/
theorem through_isDivided_places :
    let log : Handlers (List Text) :=
      ⟨fun s l => s ++ [l], fun s l => s ++ [l], fun s l => s ++ [l]⟩
    let note : Text := ['n', 'o', 't', 'e']
    let lines : List Text := [note, Header.emptyLine, ['#', 'a', ' '], Header.emptyLine,
      ['#', 'b'], [], Header.emptyLine]
    let d : Division := ⟨[note, Header.emptyLine],
      [(⟨['#', 'a'], Header.emptyLine, ['#', 'b']⟩, [[], Header.emptyLine])]⟩
    IsDivided lines d ∧ (∀ e, IsDivided lines e → e = d) ∧
      through log.step "rules" [] (scanLines lines) =
        ([['#', 'a'], Header.emptyLine, ['#', 'b']], none) ∧
      (∀ e, ¬ IsDivided (lines ++ [['#', 'c'], [' ']]) e) ∧
      through log.step "rules" [] (scanLines (lines ++ [['#', 'c'], [' ']])) =
        ([['#', 'a'], Header.emptyLine, ['#', 'b'], ['#', 'c']],
          some (.load ⟨.lineMissing .second, some "rules", some 9⟩)) := by
  intro log note lines d
  have hends : through log.step "rules" [] (scanLines (lines ++ [['#', 'c'], [' ']])) =
      ([['#', 'a'], Header.emptyLine, ['#', 'b'], ['#', 'c']],
        some (.load ⟨.lineMissing .second, some "rules", some 9⟩)) := by decide +kernel
  have hempty : IsSkipped Header.emptyLine := .inr rfl
  have hnote : IsSkipped note := .inl (by decide)
  have hblank : IsSkipped [] := .inl (by decide)
  have hsound : Division.IsSound
      (⟨['#', 'a'], Header.emptyLine, ['#', 'b']⟩, [[], Header.emptyLine]) :=
    ⟨isHeader_iff.1 rfl, List.cons_ne_nil _ _, List.cons_ne_nil _ _,
      List.forall_mem_cons.2 ⟨hblank, List.forall_mem_singleton.2 hempty⟩⟩
  have hd : IsDivided lines d :=
    ⟨⟨List.forall_mem_cons.2 ⟨hnote, List.forall_mem_singleton.2 hempty⟩,
      List.forall_mem_singleton.2 hsound⟩, rfl⟩
  obtain ⟨-, hall, -⟩ := log.through_isDivided "rules" [] lines
  obtain ⟨hunique, hresult⟩ := hall d hd
  refine ⟨hd, hunique, hresult, fun e he => ?_, hends⟩
  have hnone := (log.through_isDivided "rules" [] (lines ++ [['#', 'c'], [' ']])).1.2 ⟨e, he⟩
  rw [hends] at hnone
  cases hnone

end Handlers

end PairGrammar
