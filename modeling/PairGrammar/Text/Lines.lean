import PairGrammar.Text

/-!
# Lines of a text

A line feed ends a line, and a text that ends in a line feed has no empty line behind it. A text
that comes from a file may also end its lines in a carriage return, alone or before a line feed;
`unifyEnds` turns both into a line feed. The main statement is that writing lines with an end each
and splitting the text gives the lines back.
-/

namespace PairGrammar.Text

/-- The lines without their ends. -/
def lines : Text → List Text
  | [] => []
  | c :: r =>
    if c = '\n' then [] :: lines r
    else match lines r with
      | [] => [[c]]
      | l :: ls => (c :: l) :: ls

/-- The same text with every line ended by a line feed. -/
def unifyEnds : Text → Text
  | [] => []
  | '\r' :: '\n' :: r => '\n' :: unifyEnds r
  | '\r' :: r => '\n' :: unifyEnds r
  | c :: r => c :: unifyEnds r

/-- The lines written one after the other, each with a line feed. -/
def ofLines (ls : List Text) : Text := ls.flatMap (· ++ ['\n'])

theorem lines_append_newline {l : Text} (h : '\n' ∉ l) (r : Text) :
    lines (l ++ '\n' :: r) = l :: lines r := by
  induction l with
  | nil => simp [lines]
  | cons c l ih =>
    simp only [List.mem_cons, not_or] at h
    simp [lines, ih h.2, Ne.symm h.1]

theorem lines_ofLines {ls : List Text} (h : ∀ l ∈ ls, '\n' ∉ l) : lines (ofLines ls) = ls := by
  induction ls with
  | nil => rfl
  | cons l ls ih =>
    rw [show ofLines (l :: ls) = l ++ '\n' :: ofLines ls by simp [ofLines],
      lines_append_newline (h l (by simp)), ih fun m hm => h m (by simp [hm])]

theorem newline_not_mem_lines {t l : Text} (h : l ∈ lines t) : '\n' ∉ l := by
  induction t generalizing l with
  | nil => simp [lines] at h
  | cons c r ih =>
    rw [lines] at h
    split at h
    · rcases List.mem_cons.1 h with rfl | h
      · simp
      · exact ih h
    · next hc =>
      split at h
      · simp at h; subst h; simpa using Ne.symm hc
      · next m ms hm =>
        rcases List.mem_cons.1 h with rfl | h
        · simp [Ne.symm hc, ih (l := m) (by simp [hm])]
        · exact ih (by simp [hm, h])

end PairGrammar.Text
