import PairGrammar.Proofs.Block.Editing
import PairGrammar.Proofs.Registry.Keeping

/-!
# Blanks in front of content lines

A content line is read without the blanks in front of it, so more of them make no difference, with
one exception. The line `##empty` stands for no text only where no blank stands in front of it;
behind blanks it is read like any other line, and refused for its two hash signs.

* `Indented`: lines with blanks put in front of their content lines.
* `scan_of_indented`: a scan comes upon the same items, but for these blanks.
* `readContent_append`, `readContent_of_isShifted`: how a content line is read behind blanks.
-/

namespace PairGrammar

namespace Text

/-- Trimming on the right stays behind the last character that is no blank. -/
theorem trimRight_append (s : Text) {t : Text} (h : t.trimRight ≠ []) :
    (s ++ t).trimRight = s ++ t.trimRight := by
  have hdrop : (t.reverse.dropWhile isBlank).isEmpty = false := by
    rw [List.isEmpty_eq_false_iff]
    intro hnil
    exact h (by rw [trimRight, hnil]; rfl)
  rw [trimRight, List.reverse_append, List.dropWhile_append, hdrop]
  simp [trimRight]

theorem trimRight_append_eq_nil {s t : Text} (hs : ∀ c ∈ s, isBlank c) (h : t.trimRight = []) :
    (s ++ t).trimRight = [] := by
  have hdrop : t.reverse.dropWhile isBlank = [] := List.reverse_eq_nil_iff.1 h
  have hblank : s.reverse.dropWhile isBlank = [] :=
    List.dropWhile_eq_nil_iff.2 fun c hc => hs c (List.mem_reverse.1 hc)
  rw [trimRight, List.reverse_append, List.dropWhile_append, hdrop, hblank]
  rfl

theorem trimLeft_append {s : Text} (hs : ∀ c ∈ s, isBlank c) (t : Text) :
    (s ++ t).trimLeft = t.trimLeft := by
  have hdrop : s.dropWhile isBlank = [] := List.dropWhile_eq_nil_iff.2 hs
  rw [trimLeft, List.dropWhile_append, hdrop]
  rfl

/-- The line is `##empty` behind blanks. -/
def IsShifted (line : Text) : Prop := line ≠ Header.emptyLine ∧ line.trimLeft = Header.emptyLine

instance (line : Text) : Decidable line.IsShifted := inferInstanceAs (Decidable (_ ∧ _))

end Text

/-! ### Reading a content line -/

namespace Registry

theorem readContent_of_isShifted (reg : Registry) {line : Text} (h : line.IsShifted) :
    reg.readContent line = .error (.doubleHash Header.emptyLine) := by
  rw [readContent, if_neg h.1, h.2]
  rfl

theorem readContent_append (reg : Registry) {blanks : Text} (hblanks : ∀ c ∈ blanks, isBlank c)
    {line : Text} (h : ¬ (blanks ++ line).IsShifted) :
    reg.readContent (blanks ++ line) = reg.readContent line := by
  cases blanks with
  | nil => rfl
  | cons b blanks =>
    have hb : isBlank b := hblanks b List.mem_cons_self
    have hne : b :: blanks ++ line ≠ Header.emptyLine := by
      intro he
      rw [(List.cons.inj he).1] at hb
      exact absurd hb (by decide)
    have hline : line ≠ Header.emptyLine := by
      intro he
      refine h ⟨hne, ?_⟩
      rw [Text.trimLeft_append hblanks, he]
      decide
    rw [readContent, readContent, if_neg hne, if_neg hline, Text.trimLeft_append hblanks]

end Registry

/-! ### Scans -/

namespace Item

/-- The second item is the first one, but for blanks in front of a content line. -/
inductive Indents : Item → Item → Prop
  | same (i : Item) : Indents i i
  | natural {blanks : Text} (line : Text) : (∀ c ∈ blanks, isBlank c) →
      Indents (.natural line) (.natural (blanks ++ line))
  | code {blanks : Text} (line : Text) : (∀ c ∈ blanks, isBlank c) →
      Indents (.code line) (.code (blanks ++ line))

/-- Items of the same lines that are the same but for blanks. -/
def Aligned (items items' : List (Nat × Item)) : Prop :=
  List.Forall₂ (fun x y => x.1 = y.1 ∧ x.2.Indents y.2) items items'

theorem Aligned.refl (items : List (Nat × Item)) : Aligned items items :=
  List.forall₂_same.2 fun x _ => ⟨rfl, .same x.2⟩

end Item

open Item (Expected)

/-- Lines, read from where `e` is expected, and these lines with blanks put in front of natural
language lines and code lines. -/
inductive Indented : (e : Expected) → List Text → List Text → Prop
  | nil {e : Expected} : Indented e [] []
  | keep {e : Expected} (l : Text) {ls ms : List Text} :
      Indented ((e.next l.trimRight).getD .header) ls ms → Indented e (l :: ls) (l :: ms)
  | indent {e : Expected} {blanks : Text} (l : Text) {ls ms : List Text} : e ≠ .header →
      (∀ c ∈ blanks, isBlank c) → Indented ((e.next l.trimRight).getD .header) ls ms →
      Indented e (l :: ls) ((blanks ++ l) :: ms)

namespace Item

/-- What comes up at a content line, and what is expected behind it, does not depend on blanks in
front of it. -/
theorem Expected.indent {e : Expected} (he : e ≠ .header) {blanks : Text}
    (hblanks : ∀ c ∈ blanks, isBlank c) (l : Text) :
    e.next (blanks ++ l).trimRight = e.next l.trimRight ∧
      List.Forall₂ Indents (e.found l.trimRight) (e.found (blanks ++ l).trimRight) := by
  by_cases hl : l.trimRight = []
  · rw [Text.trimRight_append_eq_nil hblanks hl, hl]
    exact ⟨rfl, List.forall₂_same.2 fun i _ => .same i⟩
  · have hne : blanks ++ l.trimRight ≠ [] := fun h => hl (List.append_eq_nil_iff.1 h).2
    rw [Text.trimRight_append blanks hl]
    cases e with
    | header => exact absurd rfl he
    | natural =>
      simp only [Expected.next, Expected.found, hl, hne, if_false]
      exact ⟨trivial, .cons (.natural _ hblanks) .nil⟩
    | code =>
      simp only [Expected.next, Expected.found, hl, hne, if_false]
      exact ⟨trivial, .cons (.code _ hblanks) .nil⟩

theorem aligned_map {found found' : List Item} (h : List.Forall₂ Indents found found') (k : Nat) :
    Aligned (found.map (Prod.mk k)) (found'.map (Prod.mk k)) := by
  induction h with
  | nil => exact .nil
  | cons hi _ ih => exact .cons ⟨rfl, hi⟩ ih

/-- A scan comes upon the same items, but for blanks in front of content lines. -/
theorem scan_of_indented {e : Expected} {ls ms : List Text} (h : Indented e ls ms) (k : Nat) :
    Aligned (scan e k ls) (scan e k ms) := by
  induction h generalizing k with
  | nil => exact .refl _
  | @keep e l ls ms _ ih =>
    rw [scan_cons, scan_cons]
    refine List.rel_append (Aligned.refl _) ?_
    cases hnext : e.next l.trimRight with
    | none => exact .nil
    | some e' =>
      rw [hnext] at ih
      exact ih (k + 1)
  | @indent e blanks l ls ms he hblanks _ ih =>
    obtain ⟨hsame, hfound⟩ := Expected.indent he hblanks l
    rw [scan_cons, scan_cons, hsame]
    refine List.rel_append (aligned_map hfound _) ?_
    cases hnext : e.next l.trimRight with
    | none => exact .nil
    | some e' =>
      rw [hnext] at ih
      exact ih (k + 1)

end Item

end PairGrammar
