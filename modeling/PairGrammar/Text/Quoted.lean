import PairGrammar.Text

/-!
# Quoted text

A text in double quotes, as in JSON. The quote, the backslash and the control characters below the
space are written with a backslash, five of the controls with a letter and the others by their
code; every other character stands for itself. So a quoted text is one line, whatever it holds.
-/

namespace PairGrammar.Text

/-- A digit of base sixteen, in lower case. -/
def hexDigit (n : Nat) : Char := (['0', '1', '2', '3', '4', '5', '6', '7', '8', '9', 'a', 'b', 'c',
  'd', 'e', 'f'][n]?).getD '0'

/-- The last digits of base sixteen of a number. -/
def hexDigits : (count : Nat) → Nat → Text
  | 0, _ => []
  | count + 1, n => hexDigits count (n / 16) ++ [hexDigit (n % 16)]

def quoteChar (c : Char) : Text :=
  if c = '"' then ['\\', '"']
  else if c = '\\' then ['\\', '\\']
  else if c = '\n' then ['\\', 'n']
  else if c = '\r' then ['\\', 'r']
  else if c = '\t' then ['\\', 't']
  else if c.toNat = 8 then ['\\', 'b']
  else if c.toNat = 12 then ['\\', 'f']
  else if c.toNat < 32 then
    ['\\', 'u', '0', '0', hexDigit (c.toNat / 16), hexDigit (c.toNat % 16)]
  else [c]

/-- The text between two quotes. -/
def quoted (t : Text) : Text := '"' :: t.flatMap quoteChar ++ ['"']

theorem newline_not_mem_quoteChar (c : Char) : '\n' ∉ quoteChar c := by
  have h : ∀ n, n < 32 → '\n' ∉ [hexDigit (n / 16), hexDigit (n % 16)] := by decide
  unfold quoteChar
  repeat' split
  all_goals first
    | decide
    | skip
  · next hc => simpa using h _ hc
  · next hc _ _ _ _ _ => simpa using Ne.symm hc

theorem newline_not_mem_quoted (t : Text) : '\n' ∉ quoted t := by
  simp [quoted, newline_not_mem_quoteChar]

end PairGrammar.Text
