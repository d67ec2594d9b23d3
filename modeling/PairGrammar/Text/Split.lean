import PairGrammar.Text

/-!
# Splitting texts

A separator splits a text at each of its places, from left to right and without overlaps; there is
one part more than places. The main statement, `joinWith_splitOn`, is that the parts with the
separator between them are the text.
-/

namespace PairGrammar.Text

def trim (t : Text) : Text := t.trimLeft.trimRight

/-- The parts of a text between separators. The characters of a separator that has been found are
passed over one by one. -/
def splitFrom (sep : Text) : (passing : Nat) → Text → List Text
  | _, [] => [[]]
  | k + 1, _ :: r => splitFrom sep k r
  | 0, c :: r =>
    if sep.isPrefixOf (c :: r) then [] :: splitFrom sep (sep.length - 1) r
    else match splitFrom sep 0 r with
      | [] => [[c]]
      | p :: ps => (c :: p) :: ps

def splitOn (sep t : Text) : List Text := splitFrom sep 0 t

def joinWith (sep : Text) (ps : List Text) : Text := sep.intercalate ps

/-- The parts between the first `n` separators, the last of them with all that follows. -/
def splitMost (sep : Text) (n : Nat) (t : Text) : List Text :=
  let ps := splitOn sep t
  if ps.length ≤ n + 1 then ps else ps.take n ++ [joinWith sep (ps.drop n)]

/-- How often a separator splits a text. -/
def places (sep t : Text) : Nat := (splitOn sep t).length - 1

theorem splitFrom_ne_nil (sep : Text) (k : Nat) (t : Text) : splitFrom sep k t ≠ [] := by
  induction t generalizing k with
  | nil => simp [splitFrom]
  | cons c r ih =>
    cases k with
    | zero =>
      rw [splitFrom]
      split
      · exact List.cons_ne_nil _ _
      · split <;> exact List.cons_ne_nil _ _
    | succ k => exact ih k

theorem joinWith_cons (sep p : Text) {ps : List Text} (h : ps ≠ []) :
    joinWith sep (p :: ps) = p ++ sep ++ joinWith sep ps := by
  cases ps with
  | nil => exact absurd rfl h
  | cons q ps => simp [joinWith, List.intercalate]

theorem joinWith_splitFrom {sep : Text} (h : sep ≠ []) (k : Nat) (t : Text) :
    joinWith sep (splitFrom sep k t) = t.drop k := by
  induction t generalizing k with
  | nil => cases k <;> rfl
  | cons c r ih =>
    cases k with
    | zero =>
      rw [splitFrom]
      split
      · next hp =>
        obtain ⟨u, hu⟩ := List.isPrefixOf_iff_prefix.1 hp
        obtain ⟨d, s, rfl⟩ := List.exists_cons_of_ne_nil h
        rw [joinWith_cons _ _ (splitFrom_ne_nil _ _ _), ih]
        simp only [List.cons_append, List.cons.injEq] at hu
        obtain ⟨rfl, rfl⟩ := hu
        simp
      · have hr := ih 0
        split
        · next hn => exact absurd hn (splitFrom_ne_nil _ _ _)
        · next p ps hs =>
          rw [hs] at hr
          cases ps with
          | nil => simpa [joinWith, List.intercalate] using hr
          | cons q ps =>
            rw [joinWith_cons _ _ (List.cons_ne_nil _ _)] at hr ⊢
            simp only [List.drop_zero] at hr ⊢
            rw [← hr]
            simp
    | succ k => exact ih k

theorem joinWith_splitOn {sep : Text} (h : sep ≠ []) (t : Text) :
    joinWith sep (splitOn sep t) = t := joinWith_splitFrom h 0 t

end PairGrammar.Text
