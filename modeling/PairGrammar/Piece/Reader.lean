import PairGrammar.Piece
import PairGrammar.LoadError

/-!
# Reading a content line

An underscore starts a reference unless it is the last character of the line, stands before a
blank, or stands behind a letter. The name then runs over the letters and digits that follow. An
underscore right behind a name starts the next reference, whatever follows it; any other character
starts a literal. Names have to be declared, an empty name is refused, and so is a line that
starts with two hash signs.

`read` is one pass over the line. Its main statement is `textAll_readLine`: the pieces of an
accepted line, written out, are the line.
-/

namespace PairGrammar.Piece

/-- Whether the text starts with a reference, `before` being the character in front of it. -/
def startsReference (before : Option Char) : Text → Bool
  | '_' :: c :: _ => !isBlank c && !before.any isLetter
  | _ => false

/-- Every position of the text at which a reference starts. -/
def referenceStarts (before : Option Char) : Text → List Bool
  | [] => []
  | c :: r => startsReference before (c :: r) :: referenceStarts (some c) r

/-- A character in front of pieces belongs to the literal they start with, if they do. -/
def consLiteral (c : Char) : List Piece → List Piece
  | literal t :: ps => literal (c :: t) :: ps
  | ps => literal [c] :: ps

/-- What is being read: a literal, behind the character `before`, or a name of which `seen` has
been read. -/
inductive Mode
  | literal (before : Option Char)
  | name (seen : Name)

/-- A reference in front of pieces. -/
def consReference (declared : Name → Bool) (n : Name) (rest : Except Fault (List Piece)) :
    Except Fault (List Piece) :=
  if declared n then rest.map (reference n :: ·) else .error (.undefinedVariable n)

def read (declared : Name → Bool) : Mode → Text → Except Fault (List Piece)
  | .literal _, [] => .ok []
  | .literal before, c :: r =>
    if startsReference before (c :: r) then read declared (.name []) r
    else (read declared (.literal (some c)) r).map (consLiteral c)
  | .name seen, [] => consReference declared seen (.ok [])
  | .name seen, c :: r =>
    if isNameChar c then read declared (.name (seen ++ [c])) r
    else if seen = [] then .error .reservedName
    else consReference declared seen <|
      if c = '_' then read declared (.name []) r
      else (read declared (.literal (some c)) r).map (consLiteral c)

/-- The pieces of a content line. -/
def readLine (declared : Name → Bool) (line : Text) : Except Fault (List Piece) :=
  match line with
  | '#' :: '#' :: _ => .error (.doubleHash line)
  | _ => read declared (.literal none) line

/-! ### What is read is written back -/

@[simp] theorem textAll_consLiteral (c : Char) (ps : List Piece) :
    textAll (consLiteral c ps) = c :: textAll ps := by
  unfold consLiteral
  split <;> simp [text]

theorem consReference_eq_ok {declared : Name → Bool} {n : Name}
    {rest : Except Fault (List Piece)} {ps : List Piece}
    (h : consReference declared n rest = .ok ps) :
    declared n ∧ ∃ qs, rest = .ok qs ∧ ps = reference n :: qs := by
  unfold consReference at h
  split at h
  · next hn =>
    cases rest with
    | error e => cases h
    | ok qs => cases h; exact ⟨hn, qs, rfl, rfl⟩
  · cases h

/-- The text that is written for the part of a piece that a mode has read. -/
def Mode.written : Mode → Text
  | .literal _ => []
  | .name seen => '_' :: seen

theorem map_eq_ok {α β ε : Type} {f : α → β} {x : Except ε α} {b : β} (h : x.map f = .ok b) :
    ∃ a, x = .ok a ∧ b = f a := by
  cases x with
  | error e => cases h
  | ok a => cases h; exact ⟨a, rfl, rfl⟩

theorem map_eq_error {α β ε : Type} {f : α → β} {x : Except ε α} {e : ε}
    (h : x.map f = .error e) : x = .error e := by
  cases x with
  | error e' =>
    cases h
    rfl
  | ok a => cases h

theorem consReference_eq_error {declared : Name → Bool} {n : Name}
    {rest : Except Fault (List Piece)} {f : Fault} (h : consReference declared n rest = .error f) :
    declared n = false ∧ f = .undefinedVariable n ∨ declared n ∧ rest = .error f := by
  unfold consReference at h
  cases hn : declared n with
  | false =>
    rw [hn] at h
    cases h
    exact .inl ⟨rfl, rfl⟩
  | true =>
    rw [hn] at h
    exact .inr ⟨rfl, map_eq_error h⟩

theorem textAll_read {declared : Name → Bool} {m : Mode} {t : Text} {ps : List Piece}
    (h : read declared m t = .ok ps) : textAll ps = m.written ++ t := by
  fun_induction read declared m t generalizing ps with
  | case1 => cases h; rfl
  | case2 before c r hc ih =>
    have : c = '_' := by
      unfold startsReference at hc
      split at hc
      · next h => exact (List.cons.inj h).1
      · cases hc
    simpa [Mode.written, this] using ih h
  | case3 before c r hc ih =>
    obtain ⟨qs, hq, rfl⟩ := map_eq_ok h
    simpa [Mode.written] using ih hq
  | case4 seen =>
    obtain ⟨-, qs, hq, rfl⟩ := consReference_eq_ok h
    cases hq
    simp [Mode.written, text]
  | case5 seen c r hc ih => simpa [Mode.written] using ih h
  | case6 => cases h
  | case7 seen c r hc hs glued loose =>
    obtain ⟨-, qs, hq, rfl⟩ := consReference_eq_ok h
    split at hq
    · next hu => simpa [Mode.written, text, hu] using glued hq
    · obtain ⟨us, hus, rfl⟩ := map_eq_ok hq
      simpa [Mode.written, text] using loose hus

theorem textAll_readLine {declared : Name → Bool} {line : Text} {ps : List Piece}
    (h : readLine declared line = .ok ps) : textAll ps = line := by
  unfold readLine at h
  split at h
  · cases h
  · simpa [Mode.written] using textAll_read h

end PairGrammar.Piece
