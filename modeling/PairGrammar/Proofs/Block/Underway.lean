import PairGrammar.Proofs.Block.Editing
import PairGrammar.Proofs.Block.Layout

/-!
# Lines that may end within a block

A reader that has stopped somewhere has whole blocks behind it, and perhaps the first lines of one
more. `Underway` says so of the lines that it has read, and every line that is read moves it on.

* `Underway.concat_skipped`, `Underway.concat_header`, `Underway.concat_natural`,
  `Underway.concat_code`: one more line.
* `Underway.behind`: what is expected next.
* `Underway.unique`: the blocks and the lines of the last one are determined.
-/

namespace PairGrammar

open Item (Expected)

/-- The lines that have been read of a block. -/
inductive Opened
  | none
  | header (h : Text)
  | natural (h n : Text)
  deriving DecidableEq, Repr

namespace Opened

/-- What is expected behind the lines. -/
def expected : Opened → Expected
  | none => .header
  | header _ => .natural
  | natural _ _ => .code

/-- The header, if the block has been begun. -/
def headers : Opened → List Text
  | none => []
  | header h => [h]
  | natural h _ => [h]

end Opened

/-- The content line that is missing where nothing follows. -/
def Item.Expected.missing? : Expected → Option ContentLine
  | header => none
  | natural => some .second
  | code => some .third

/-- What is expected behind a line of a block. -/
def Item.Expected.succ : Expected → Expected
  | header => natural
  | natural => code
  | code => header

theorem Item.Expected.behind_append (e : Expected) (ls ms : List Text) :
    e.behind (ls ++ ms) = (e.behind ls).bind (·.behind ms) :=
  List.foldlM_append

theorem Layout.behind {ls : List Text} {bs : List Block} (h : Layout ls bs) :
    Expected.header.behind ls = some .header := by
  induction h with
  | nil => rfl
  | skip hl _ ih => simpa [Expected.behind, Expected.next, hl] using ih
  | block hh hn hc _ ih => simpa [Expected.behind, Expected.next, hh, hn, hc] using ih

/-- The lines are laid out in blocks, but for the last ones, which belong to a block that has not
come to its end. -/
inductive Underway : List Text → List Block → Opened → Prop
  | whole {ls : List Text} {bs : List Block} (h : Layout ls bs) : Underway ls bs .none
  | header {ls : List Text} {bs : List Block} {h : Text} (hls : Layout ls bs)
      (hh : Header.isHeader h.trimRight) : Underway (ls ++ [h]) bs (.header h.trimRight)
  | natural {ls : List Text} {bs : List Block} {h n : Text} (hls : Layout ls bs)
      (hh : Header.isHeader h.trimRight) (hn : n.trimRight ≠ []) :
      Underway (ls ++ [h, n]) bs (.natural h.trimRight n.trimRight)

namespace Underway

variable {ls : List Text} {bs cs : List Block} {o p : Opened} {l h n : Text}

/-! ### One more line -/

theorem layout (hu : Underway ls bs .none) : Layout ls bs := by
  cases hu with
  | whole h => exact h

theorem concat_skipped (hu : Underway ls bs .none) (hl : Header.isHeader l.trimRight = false) :
    Underway (ls ++ [l]) bs .none := by
  have hnil : Layout [l] [] := .skip hl .nil
  simpa using whole (hu.layout.append hnil)

theorem concat_header (hu : Underway ls bs .none) (hl : Header.isHeader l.trimRight) :
    Underway (ls ++ [l]) bs (.header l.trimRight) := header hu.layout hl

theorem concat_natural (hu : Underway ls bs (.header h)) (hl : l.trimRight ≠ []) :
    Underway (ls ++ [l]) bs (.natural h l.trimRight) := by
  cases hu with
  | header hls hh =>
    rw [List.append_assoc]
    exact natural hls hh hl

theorem concat_code (hu : Underway ls bs (.natural h n)) (hl : l.trimRight ≠ []) :
    Underway (ls ++ [l]) (bs ++ [⟨h, n, l.trimRight⟩]) .none := by
  cases hu with
  | natural hls hh hn =>
    rw [List.append_assoc]
    exact whole (hls.append (.block hh hn hl .nil))

/-! ### What is expected next -/

theorem behind (hu : Underway ls bs o) : Expected.header.behind ls = some o.expected := by
  cases hu with
  | whole hls => exact hls.behind
  | header hls hh =>
    rw [Expected.behind_append, hls.behind]
    simp [Expected.behind, Expected.next, hh, Opened.expected]
  | natural hls hh hn =>
    rw [Expected.behind_append, hls.behind]
    simp [Expected.behind, Expected.next, hh, hn, Opened.expected]

/-- Lines are laid out in one way only, also where they end within a block. -/
theorem unique (hu : Underway ls bs o) (hu' : Underway ls cs p) : bs = cs ∧ o = p := by
  have hexpected : o.expected = p.expected := Option.some.inj (hu.behind.symm.trans hu'.behind)
  cases hu with
  | whole hls =>
    cases hu' with
    | whole hls' => exact ⟨hls.unique hls', rfl⟩
    | header => cases hexpected
    | natural => cases hexpected
  | @header ls _ h hls =>
    generalize hms : ls ++ [h] = ms at hu'
    cases hu' with
    | whole => cases hexpected
    | header hls' =>
      obtain ⟨rfl, hh⟩ := List.append_inj' hms rfl
      cases hh
      exact ⟨hls.unique hls', rfl⟩
    | natural => cases hexpected
  | @natural ls _ h n hls =>
    generalize hms : ls ++ [h, n] = ms at hu'
    cases hu' with
    | whole => cases hexpected
    | header => cases hexpected
    | natural hls' =>
      obtain ⟨rfl, hh⟩ := List.append_inj' hms rfl
      cases hh
      exact ⟨hls.unique hls', rfl⟩

/-- Without its last line a block that has not come to its end has not come to it either. -/
theorem exists_take (hu : Underway ls bs o) (ho : o ≠ .none) :
    ∃ p, Underway (ls.take (ls.length - 1)) bs p := by
  cases hu with
  | whole => exact absurd rfl ho
  | @header ls _ h hls =>
    refine ⟨.none, ?_⟩
    simpa using whole hls
  | @natural ls _ h n hls hh =>
    refine ⟨.header h.trimRight, ?_⟩
    have htake : (ls ++ [h, n]).take (ls.length + 1) = ls ++ [h] := List.take_length_add_append 1
    rw [List.length_append]
    show Underway ((ls ++ [h, n]).take (ls.length + 1)) _ _
    rw [htake]
    exact header hls hh

end Underway

end PairGrammar
