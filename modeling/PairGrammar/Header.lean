import PairGrammar.LoadError
import PairGrammar.Name
import PairGrammar.Numeral
import PairGrammar.Weights

/-!
# Header lines

A header is a hash sign, the name of a variable and, behind blanks, the word `weight` and a
numeral. Without these two the weight is one. The line `##empty` stands for an empty content line
and is no header.

The name is read by `readName`, which gives the rest of the line as well; the rest decides the
weight. The main statement, `isValid_of_readName`, is that what is read is a name.
-/

namespace PairGrammar

structure Header where
  name : Name
  weight : Nat
  deriving DecidableEq, Repr

namespace Header

/-- The content line that stands for no text. -/
def emptyLine : Text := ['#', '#', 'e', 'm', 'p', 't', 'y']

def weightWord : Text := ['w', 'e', 'i', 'g', 'h', 't']

/-- The lines that start a block; all others are skipped where a block may start. -/
def isHeader (line : Text) : Bool := line.head? = some '#' && line ≠ emptyLine

/-- The name and the rest of the line, from the first blank behind the name on. -/
def readName : Text → Except Failure (Name × Text)
  | '#' :: t => match t with
    | [] => .error (.ofFault .nameMissing)
    | c :: _ =>
      if c = '#' then .error (.ofFault (.doubleHash ('#' :: t)))
      else if !isNameStart c then .error (.ofFault (.nameStart c))
      else
        let name := t.takeWhile (!isBlank ·)
        match name.find? (!isNameChar ·) with
        | some d => .error (.ofFault (.nameCharacter d))
        | none => .ok (name, t.dropWhile (!isBlank ·))
  | _ => .error .brokenPromise

/-- The weight that the words behind a name give; words behind the numeral are ignored. -/
def readWeight : List Text → Except Failure Nat
  | [] => .ok 1
  | word :: rest =>
    if word ≠ weightWord then .error (.ofFault (.unknownProperty word))
    else match rest with
      | [] => .error (.ofFault .weightMissing)
      | numeral :: _ =>
        if !Numeral.isDecimal numeral then .error (.ofFault (.weightNotDecimal numeral))
        else if Numeral.maxLength < numeral.length then .error (.longNumeral numeral.length)
        else if maxWeight < Numeral.value numeral then .error (.ofFault (.weightTooBig numeral))
        else .ok (Numeral.value numeral)

def read (line : Text) : Except Failure Header :=
  match readName line with
  | .error e => .error e
  | .ok (name, rest) => match readWeight rest.words with
    | .error e => .error e
    | .ok weight => .ok ⟨name, weight⟩

theorem isValid_of_readName {line name rest : Text} (h : readName line = .ok (name, rest)) :
    Name.IsValid name := by
  unfold readName at h
  split at h
  · split at h
    · cases h
    · next c r =>
      split at h
      · cases h
      · split at h
        · cases h
        · next hs =>
          simp only [Bool.not_eq_true', Bool.not_eq_false] at hs
          have hb := isBlank_eq_false_of_isNameChar (isNameChar_of_isLetter hs)
          dsimp only at h
          split at h
          · cases h
          · next hf =>
            cases h
            simp only [List.takeWhile_cons, hb, Bool.not_false, if_true] at hf ⊢
            simp only [List.find?_eq_none, Bool.not_eq_true', Bool.not_eq_false] at hf
            exact ⟨hs, fun d hd => hf d (List.mem_cons_of_mem _ hd)⟩
  · cases h

end Header

end PairGrammar
