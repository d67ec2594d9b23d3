import Mathlib.Data.List.Infix
import Mathlib.Data.List.TakeWhile
import PairGrammar.Text.Lines
import PairGrammar.Text.Utf8

/-!
# Lines of files and lines of texts

In a file a carriage return ends a line, alone or before a line feed. In a text it is a character
like any other, a blank one; where it stands before a line feed it is trimmed from the end of its
line, and the lines are the same as those of the file.

* `map_trimRight_lines_unifyEnds`: the trimmed lines of a text are those of a file with that text.
* `ofPieces_toUTF8`: a file that holds a text is read as this text.
-/

namespace PairGrammar.Text

/-- Every carriage return stands directly before a line feed. -/
def HasPairedReturns (t : Text) : Prop :=
  ∀ before after, t = before ++ '\r' :: after → after.head? = some '\n'

theorem HasPairedReturns.of_cons {c : Char} {t : Text} (h : HasPairedReturns (c :: t)) :
    HasPairedReturns t := by
  rintro before after rfl
  exact h (c :: before) after rfl

theorem HasPairedReturns.of_tails {t : Text}
    (h : t.tails.all fun s => s.head? ≠ some '\r' || s.tail.head? = some '\n') :
    HasPairedReturns t := by
  rintro before after rfl
  have htail : '\r' :: after ∈ (before ++ '\r' :: after).tails :=
    (List.mem_tails _ _).2 (List.suffix_append before _)
  exact of_decide_eq_true (List.all_eq_true.1 h _ htail)

/-! ### One character more in front -/

theorem trimRight_cons_congr {s t : Text} (h : s.trimRight = t.trimRight) (c : Char) :
    trimRight (c :: s) = trimRight (c :: t) := by
  have hdrop : s.reverse.dropWhile isBlank = t.reverse.dropWhile isBlank :=
    List.reverse_inj.1 h
  rw [trimRight, trimRight, List.reverse_cons, List.reverse_cons, List.dropWhile_append,
    List.dropWhile_append, hdrop]

theorem lines_newline_cons (t : Text) : lines ('\n' :: t) = [] :: lines t := rfl

theorem lines_cons {c : Char} (hc : c ≠ '\n') (t : Text) :
    lines (c :: t) = (c :: (lines t).headD []) :: (lines t).tail := by
  rw [lines, if_neg hc]
  cases lines t <;> rfl

theorem headD_map_trimRight (ls : List Text) :
    (ls.map trimRight).headD [] = (ls.headD []).trimRight := by
  cases ls <;> rfl

/-- A character in front belongs to the first line, or ends one. -/
theorem map_trimRight_lines_cons {s t : Text}
    (h : (lines s).map trimRight = (lines t).map trimRight) (c : Char) :
    (lines (c :: s)).map trimRight = (lines (c :: t)).map trimRight := by
  by_cases hc : c = '\n'
  · rw [hc, lines_newline_cons, lines_newline_cons, List.map_cons, List.map_cons, h]
  · have hhead : ((lines s).headD []).trimRight = ((lines t).headD []).trimRight := by
      rw [← headD_map_trimRight, h, headD_map_trimRight]
    have htail : (lines s).tail.map trimRight = (lines t).tail.map trimRight := by
      rw [List.map_tail, h, List.map_tail]
    rw [lines_cons hc, lines_cons hc, List.map_cons, List.map_cons, trimRight_cons_congr hhead c,
      htail]

/-! ### Texts and files -/

/-- Trimmed at their ends, the lines are the same whether carriage returns end lines or not. -/
theorem map_trimRight_lines_unifyEnds {t : Text} (h : t.HasPairedReturns) :
    (lines (unifyEnds t)).map trimRight = (lines t).map trimRight := by
  fun_induction unifyEnds t with
  | case1 => rfl
  | case2 r ih =>
    show [] :: (lines (unifyEnds r)).map trimRight = [] :: (lines r).map trimRight
    rw [ih h.of_cons.of_cons]
  | case3 r hr ih =>
    have hnext : List.head? r = some '\n' := h [] r rfl
    obtain ⟨r', rfl⟩ := List.head?_eq_some_iff.1 hnext
    exact absurd rfl (hr r')
  | case4 c r hc hc' ih => exact map_trimRight_lines_cons (ih h.of_cons) c

/-- A file that holds a text in UTF-8 is read as this text. -/
theorem ofPieces_toUTF8 (t : Text) : ofPieces t.string.toUTF8 = .ok t := by
  have hread : String.fromUTF8? t.string.toUTF8 = some t.string := by
    rw [String.fromUTF8?, String.toUTF8_eq_toByteArray, dif_pos t.string.isValidUTF8]
    rfl
  rw [ofPieces, decode, hread]
  exact congrArg Except.ok String.toList_ofList

end PairGrammar.Text
