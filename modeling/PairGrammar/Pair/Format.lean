import PairGrammar.Pair
import PairGrammar.Text.Quoted

/-!
# Written pairs

A pair is written either as plain text, its two lines one below the other and an empty line behind
them, or as one object of JSON on a line of its own. The line feed that ends the last line is not
part of the written pair.
-/

namespace PairGrammar

inductive PairFormat
  | plain
  | json
  deriving DecidableEq, Repr

namespace Pair

def plain (p : Pair) : Text := p.natural ++ '\n' :: p.code ++ ['\n']

def json (p : Pair) : Text :=
  '\x7b' :: Text.quoted "natural".toList ++ [':', ' '] ++ Text.quoted p.natural ++ [',', ' '] ++
    Text.quoted "code".toList ++ [':', ' '] ++ Text.quoted p.code ++ ['\x7d']

def format (p : Pair) : PairFormat → Text
  | .plain => p.plain
  | .json => p.json

theorem newline_not_mem_json (p : Pair) : '\n' ∉ p.json := by
  simp [json, Text.newline_not_mem_quoted]

end Pair

end PairGrammar
