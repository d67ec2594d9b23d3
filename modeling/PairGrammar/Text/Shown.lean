import PairGrammar.Text.Quoted
import PairGrammar.Text.Unseen

/-!
# Text shown in messages

A message shows what a user has typed in single quotes, or in double quotes if it holds single
quotes only. The quote, the backslash and the characters that cannot be seen are written with a
backslash: line feed, return and tab by a letter, the others by their code in two, four or eight
digits.
-/

namespace PairGrammar.Text

def showChar (mark c : Char) : Text :=
  if c = mark ∨ c = '\\' then ['\\', c]
  else if c = '\n' then ['\\', 'n']
  else if c = '\r' then ['\\', 'r']
  else if c = '\t' then ['\\', 't']
  else if !isUnseen c then [c]
  else if c.toNat < 0x100 then '\\' :: 'x' :: hexDigits 2 c.toNat
  else if c.toNat < 0x10000 then '\\' :: 'u' :: hexDigits 4 c.toNat
  else '\\' :: 'U' :: hexDigits 8 c.toNat

def shown (t : Text) : Text :=
  let mark := if t.contains '\'' && !t.contains '"' then '"' else '\''
  mark :: t.flatMap (showChar mark) ++ [mark]

/-- The same for a string. -/
def showString (s : String) : String := (shown s.toList).string

end PairGrammar.Text
