import Mathlib.Data.List.Forall2
import PairGrammar.Block

/-!
# Layouts and what a scan comes upon

A scan of lines finds a missing content line unless the lines are laid out in blocks, and lines
are laid out in one way only.

* `exists_layout_of_scan`: lines in which a scan finds nothing missing have a layout.
* `Layout.unique`: two layouts of the same lines have the same blocks.
* `Layout.append`, `Layout.flatten`: lines in blocks stay in blocks where they are put together.
-/

namespace PairGrammar

open Item (scan missing)

theorem Layout.unique {ls : List Text} {bs cs : List Block} (hb : Layout ls bs)
    (hc : Layout ls cs) : bs = cs := by
  induction hb generalizing cs with
  | nil =>
    cases hc
    rfl
  | skip hl _ ih =>
    cases hc with
    | skip _ hc => exact ih hc
    | block hh => exact absurd hh (by simp [hl])
  | block hh hn _ _ ih =>
    cases hc with
    | skip hl => exact absurd hh (by simp [hl])
    | block _ _ _ hc => rw [ih hc]

/-- Lines in blocks, one after the other, are laid out in all of these blocks. -/
theorem Layout.append {ls ms : List Text} {bs cs : List Block} (hb : Layout ls bs)
    (hc : Layout ms cs) : Layout (ls ++ ms) (bs ++ cs) := by
  induction hb with
  | nil => exact hc
  | skip hl _ ih => exact .skip hl ih
  | block hh hn hc' _ ih => exact .block hh hn hc' ih

theorem Layout.flatten {texts : List (List Text)} {bss : List (List Block)}
    (h : List.Forall₂ Layout texts bss) : Layout texts.flatten bss.flatten := by
  induction h with
  | nil => exact .nil
  | cons hbs _ ih => exact hbs.append ih

/-- Lines in which nothing is missing are laid out in blocks. -/
theorem exists_layout_of_scan : ∀ (k : Nat) (ls : List Text),
    (∀ w, missing w ∉ (scan .header k ls).map Prod.snd) → ∃ bs, Layout ls bs
  | _, [], _ => ⟨[], .nil⟩
  | k, l :: ls, h => by
    by_cases hl : Header.isHeader l.trimRight
    · match ls, h with
      | [], h => exact absurd (h .second) (by simp [scan, hl])
      | [n], h =>
        by_cases hn : n.trimRight = []
        · exact absurd (h .second) (by simp [scan, hl, hn])
        · exact absurd (h .third) (by simp [scan, hl, hn])
      | n :: c :: ls, h =>
        by_cases hn : n.trimRight = []
        · exact absurd (h .second) (by simp [scan, hl, hn])
        · by_cases hc : c.trimRight = []
          · exact absurd (h .third) (by simp [scan, hl, hn, hc])
          · obtain ⟨bs, hbs⟩ := exists_layout_of_scan (k + 3) ls fun w hw =>
              h w (by simpa [scan, hl, hn, hc] using hw)
            exact ⟨_, .block hl hn hc hbs⟩
    · have hl : Header.isHeader l.trimRight = false := by simpa using hl
      obtain ⟨bs, hbs⟩ := exists_layout_of_scan (k + 1) ls fun w hw =>
        h w (by simpa [scan, hl] using hw)
      exact ⟨bs, .skip hl hbs⟩

end PairGrammar
