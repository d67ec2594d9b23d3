import Mathlib.Data.List.TakeWhile
import PairGrammar.Proofs.Block.Layout

/-!
# The division of lines into blocks

Trimmed lines are divided into lines that are skipped, and then blocks, each with the lines behind
it that are skipped, too. A line is skipped where it does not start with a hash sign, and the line
`##empty` is skipped as well; a content line may be any line but an empty one. `Division` keeps all
the lines and says which of them belong together, so unlike a layout it can be read back.

* `Division.unique`: lines are divided in one way only.
* `exists_isDivided_iff`: the lines that can be divided are the ones that have a layout.
-/

namespace PairGrammar

/-- A trimmed line that no block starts with. -/
def IsSkipped (line : Text) : Prop := line.head? ≠ some '#' ∨ line = Header.emptyLine

theorem isHeader_eq_false_iff {line : Text} : Header.isHeader line = false ↔ IsSkipped line := by
  rw [Header.isHeader, Bool.and_eq_false_iff, decide_eq_false_iff_not, decide_eq_false_iff_not,
    Decidable.not_not]
  rfl

theorem isHeader_iff {line : Text} : Header.isHeader line ↔ ¬ IsSkipped line := by
  rw [← isHeader_eq_false_iff, Bool.not_eq_false]

/-- The skipped lines in front, and the blocks, each with the skipped lines behind it. -/
structure Division where
  skipped : List Text
  blocks : List (Block × List Text)
  deriving DecidableEq, Repr

namespace Division

/-- The lines of blocks with the skipped lines behind them. -/
def linesFrom (bs : List (Block × List Text)) : List Text :=
  bs.flatMap fun b => b.1.header :: b.1.natural :: b.1.code :: b.2

/-- All the lines in their order. -/
def lines (d : Division) : List Text := d.skipped ++ linesFrom d.blocks

/-- The lines of a block, and those behind it, are what they have to be. -/
structure IsSound (b : Block × List Text) : Prop where
  header : ¬ IsSkipped b.1.header
  natural : b.1.natural ≠ []
  code : b.1.code ≠ []
  skipped : ∀ l ∈ b.2, IsSkipped l

structure IsProper (d : Division) : Prop where
  skipped : ∀ l ∈ d.skipped, IsSkipped l
  blocks : ∀ b ∈ d.blocks, IsSound b

/-! ### Uniqueness -/

variable {d e : Division} {skipped : List Text} {b : Block × List Text}
  {bs cs : List (Block × List Text)}

theorem linesFrom_cons : linesFrom (b :: bs) =
    b.1.header :: b.1.natural :: b.1.code :: (⟨b.2, bs⟩ : Division).lines := rfl

/-- Where a block starts the skipped lines come to their end. -/
theorem takeWhile_linesFrom (h : ∀ b ∈ bs, IsSound b) :
    (linesFrom bs).takeWhile (!Header.isHeader ·) = [] := by
  cases bs with
  | nil => rfl
  | cons b bs =>
    have hb : Header.isHeader b.1.header := isHeader_iff.2 (h b List.mem_cons_self).header
    rw [linesFrom_cons, List.takeWhile_cons, hb]
    rfl

theorem skipped_eq (hd : d.IsProper) : d.lines.takeWhile (!Header.isHeader ·) = d.skipped := by
  have hskipped : ∀ l ∈ d.skipped, !Header.isHeader l := fun l hl => by
    rw [isHeader_eq_false_iff.2 (hd.skipped l hl)]
    rfl
  rw [lines, List.takeWhile_append_of_pos hskipped, takeWhile_linesFrom hd.blocks, List.append_nil]

theorem linesFrom_injective (hbs : ∀ b ∈ bs, IsSound b) (hcs : ∀ c ∈ cs, IsSound c)
    (h : linesFrom bs = linesFrom cs) : bs = cs := by
  induction bs generalizing cs with
  | nil =>
    cases cs with
    | nil => rfl
    | cons c cs => cases h
  | cons b bs ih =>
    cases cs with
    | nil => cases h
    | cons c cs =>
      obtain ⟨hb, hbs'⟩ := List.forall_mem_cons.1 hbs
      obtain ⟨hc, hcs'⟩ := List.forall_mem_cons.1 hcs
      obtain ⟨⟨header, natural, code⟩, behind⟩ := b
      obtain ⟨⟨header', natural', code'⟩, behind'⟩ := c
      simp only [linesFrom_cons, List.cons.injEq] at h
      obtain ⟨rfl, rfl, rfl, h⟩ := h
      -- the lines behind the first block are divided on their own
      have hfirst := skipped_eq (d := ⟨behind, bs⟩) ⟨hb.skipped, hbs'⟩
      rw [h] at hfirst
      obtain rfl : behind' = behind :=
        (skipped_eq (d := ⟨behind', cs⟩) ⟨hc.skipped, hcs'⟩).symm.trans hfirst
      rw [ih hbs' hcs' (List.append_cancel_left h)]

/-- Two divisions with the same lines are the same. -/
theorem unique (hd : d.IsProper) (he : e.IsProper) (h : d.lines = e.lines) : d = e := by
  have hskipped : d.skipped = e.skipped := by rw [← skipped_eq hd, h, skipped_eq he]
  have hrest : linesFrom d.blocks = linesFrom e.blocks := by
    rw [lines, lines, hskipped] at h
    exact List.append_cancel_left h
  obtain ⟨skipped, blocks⟩ := d
  obtain ⟨skipped', blocks'⟩ := e
  rw [mk.injEq]
  exact ⟨hskipped, linesFrom_injective hd.blocks he.blocks hrest⟩

end Division

/-! ### Divisions and layouts -/

/-- The lines, trimmed on the right, are divided like this. -/
structure IsDivided (lines : List Text) (d : Division) : Prop where
  proper : d.IsProper
  lines_eq : d.lines = lines.map Text.trimRight

theorem IsDivided.unique {lines : List Text} {d e : Division} (hd : IsDivided lines d)
    (he : IsDivided lines e) : d = e :=
  Division.unique hd.proper he.proper (hd.lines_eq.trans he.lines_eq.symm)

theorem Layout.exists_isDivided {lines : List Text} {bs : List Block} (h : Layout lines bs) :
    ∃ d, IsDivided lines d ∧ d.blocks.map Prod.fst = bs := by
  induction h with
  | nil => exact ⟨⟨[], []⟩, ⟨⟨List.forall_mem_nil _, List.forall_mem_nil _⟩, rfl⟩, rfl⟩
  | skip hl _ ih =>
    obtain ⟨d, hd, rfl⟩ := ih
    have hskipped := List.forall_mem_cons.2 ⟨isHeader_eq_false_iff.1 hl, hd.proper.skipped⟩
    exact ⟨⟨_ :: d.skipped, d.blocks⟩, ⟨⟨hskipped, hd.proper.blocks⟩,
      congrArg (_ :: ·) hd.lines_eq⟩, rfl⟩
  | @block h n c _ _ hh hn hc _ ih =>
    obtain ⟨d, hd, rfl⟩ := ih
    let b : Block × List Text := (⟨h.trimRight, n.trimRight, c.trimRight⟩, d.skipped)
    have hb : Division.IsSound b := ⟨isHeader_iff.1 hh, hn, hc, hd.proper.skipped⟩
    have hblocks := List.forall_mem_cons.2 ⟨hb, hd.proper.blocks⟩
    refine ⟨⟨[], b :: d.blocks⟩, ⟨⟨List.forall_mem_nil _, hblocks⟩, ?_⟩, rfl⟩
    exact congrArg (h.trimRight :: n.trimRight :: c.trimRight :: ·) hd.lines_eq

/-- Lines that are skipped may stand in front of a layout. -/
theorem Layout.of_skipped {skipped rest lines : List Text} {bs : List Block}
    (hskipped : ∀ l ∈ skipped, IsSkipped l) (h : skipped ++ rest = lines.map Text.trimRight)
    (hrest : ∀ ls : List Text, rest = ls.map Text.trimRight → Layout ls bs) : Layout lines bs := by
  induction skipped generalizing lines with
  | nil => exact hrest lines h
  | cons l skipped ih =>
    obtain ⟨hl, hrest'⟩ := List.forall_mem_cons.1 hskipped
    obtain ⟨m, ms, rfl, rfl, hms⟩ := List.map_eq_cons_iff.1 h.symm
    exact .skip (isHeader_eq_false_iff.2 hl) (ih hrest' hms.symm)

theorem IsDivided.layout {lines : List Text} {d : Division} (h : IsDivided lines d) :
    Layout lines (d.blocks.map Prod.fst) := by
  obtain ⟨skipped, blocks⟩ := d
  obtain ⟨⟨hskipped, hblocks⟩, hlines⟩ := h
  induction blocks generalizing skipped lines with
  | nil =>
    refine Layout.of_skipped hskipped hlines fun ls hls => ?_
    cases List.map_eq_nil_iff.1 hls.symm
    exact .nil
  | cons b blocks ih =>
    obtain ⟨hb, hblocks'⟩ := List.forall_mem_cons.1 hblocks
    refine Layout.of_skipped hskipped hlines fun ls hls => ?_
    obtain ⟨⟨header, natural, code⟩, behind⟩ := b
    rw [Division.linesFrom_cons] at hls
    obtain ⟨h, ls, rfl, rfl, hls⟩ := List.map_eq_cons_iff.1 hls.symm
    obtain ⟨n, ls, rfl, rfl, hls⟩ := List.map_eq_cons_iff.1 hls
    obtain ⟨c, ls, rfl, rfl, hls⟩ := List.map_eq_cons_iff.1 hls
    exact .block (isHeader_iff.2 hb.header) hb.natural hb.code
      (ih behind hls.symm hb.skipped hblocks')

theorem exists_isDivided_iff {lines : List Text} :
    (∃ d, IsDivided lines d) ↔ ∃ bs, Layout lines bs := by
  constructor
  · rintro ⟨d, hd⟩
    exact ⟨_, hd.layout⟩
  · rintro ⟨bs, h⟩
    obtain ⟨d, hd, -⟩ := h.exists_isDivided
    exact ⟨d, hd⟩

end PairGrammar
