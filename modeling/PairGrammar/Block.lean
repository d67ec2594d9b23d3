import PairGrammar.Header

/-!
# Blocks of three lines

A rule file is made of blocks: a header line, a natural language line and a code line, the last
two not blank. Where a header may stand every line that is none is skipped, so comments and blank
lines lie between blocks. Lines count without the blanks at their ends, and what a line is depends
on its place only: a content line may start with a hash sign.

`Layout` says which lines make up which blocks. `scan` finds the lines of the blocks one after the
other, each with its number, and a mark where a content line is missing. The main statement is
`scan_of_layout`: lines that are laid out in blocks are found block by block.
-/

namespace PairGrammar

structure Block where
  header : Text
  natural : Text
  code : Text
  deriving DecidableEq, Repr

/-- The lines, trimmed on the right, are the given blocks with skipped lines around them. -/
inductive Layout : List Text → List Block → Prop
  | nil : Layout [] []
  | skip {l : Text} {ls : List Text} {bs : List Block} :
      Header.isHeader l.trimRight = false → Layout ls bs → Layout (l :: ls) bs
  | block {h n c : Text} {ls : List Text} {bs : List Block} :
      Header.isHeader h.trimRight → n.trimRight ≠ [] → c.trimRight ≠ [] → Layout ls bs →
      Layout (h :: n :: c :: ls) (⟨h.trimRight, n.trimRight, c.trimRight⟩ :: bs)

/-- What the reader of a rule file comes upon. -/
inductive Item
  | header (line : Text)
  | natural (line : Text)
  | code (line : Text)
  | missing (which : ContentLine)
  deriving DecidableEq, Repr

namespace Item

/-- The line that is expected next. -/
inductive Expected
  | header
  | natural
  | code
  deriving DecidableEq, Repr

/-- The items of lines, each with the number of its line, `k` lines having been read before. Where
the input ends within a block, the last line is at fault. -/
def scan : Expected → (k : Nat) → List Text → List (Nat × Item)
  | .header, _, [] => []
  | .natural, k, [] => [(k, missing .second)]
  | .code, k, [] => [(k, missing .third)]
  | .header, k, l :: ls =>
    let line := l.trimRight
    if Header.isHeader line then (k + 1, header line) :: scan .natural (k + 1) ls
    else scan .header (k + 1) ls
  | .natural, k, l :: ls =>
    let line := l.trimRight
    if line = [] then [(k + 1, missing .second)]
    else (k + 1, natural line) :: scan .code (k + 1) ls
  | .code, k, l :: ls =>
    let line := l.trimRight
    if line = [] then [(k + 1, missing .third)]
    else (k + 1, code line) :: scan .header (k + 1) ls

def scanLines (ls : List Text) : List (Nat × Item) := scan .header 0 ls

def ofBlock (b : Block) : List Item := [header b.header, natural b.natural, code b.code]

theorem scan_of_layout {ls : List Text} {bs : List Block} (h : Layout ls bs) (k : Nat) :
    (scan .header k ls).map Prod.snd = bs.flatMap ofBlock := by
  induction h generalizing k with
  | nil => rfl
  | skip hl _ ih => simp [scan, hl, ih]
  | block hh hn hc _ ih => simp [scan, hh, hn, hc, ih, ofBlock]

end Item

end PairGrammar
