import PairGrammar.Name

/-!
# Pieces of a content line

A content line is a sequence of pieces: literal text, and references to variables, written as an
underscore and the name. A piece is written by `text`; writing a sequence joins the written pieces
without anything between them. A reference holds only the name, so that variables may refer to
each other and to themselves.
-/

namespace PairGrammar

inductive Piece
  | literal (text : Text)
  | reference (name : Name)
  deriving DecidableEq, Repr

namespace Piece

def text : Piece → Text
  | literal t => t
  | reference n => '_' :: n

/-- The written form of a sequence of pieces. -/
def textAll (ps : List Piece) : Text := ps.flatMap text

def name? : Piece → Option Name
  | literal _ => none
  | reference n => some n

@[simp] theorem textAll_nil : textAll [] = [] := rfl

@[simp] theorem textAll_cons (p : Piece) (ps : List Piece) :
    textAll (p :: ps) = p.text ++ textAll ps := rfl

@[simp] theorem textAll_append (ps qs : List Piece) :
    textAll (ps ++ qs) = textAll ps ++ textAll qs := by
  simp [textAll]

end Piece

end PairGrammar
