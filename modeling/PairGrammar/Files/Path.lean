import PairGrammar.Text.Split

/-!
# Paths

A path is a number of slashes in front, none for a relative path, and the names behind them. Empty
names and single dots say nothing and are left out; double dots stay, since the folder above may
be reached through a link. The path without names is written as a single dot.
-/

namespace PairGrammar

structure Path where
  slashes : Nat
  names : List String
  deriving DecidableEq, Repr

namespace Path

/-- What stands between slashes. -/
def parts (s : String) : List String := (Text.splitOn ['/'] s.toList).map String.ofList

/-- Two slashes in front stay two; any other number of them is one. -/
def ofString (s : String) : Path :=
  let n := (s.toList.takeWhile (· = '/')).length
  ⟨if n = 0 ∨ n = 2 then n else 1, (parts s).filter fun c => c ≠ "" ∧ c ≠ "."⟩

def string (p : Path) : String :=
  if p.slashes = 0 ∧ p.names = [] then "."
  else String.ofList (List.replicate p.slashes '/') ++ "/".intercalate p.names

/-- The names of a path as it is written, but for the empty ones. -/
def written (s : String) : List String := (parts s).filter (· ≠ "")

/-- The names by which a path is followed one after the other. A slash at the end asks for a folder,
as a single dot does. -/
def steps (s : String) : List String := written s ++ if s.endsWith "/" then ["."] else []

def child (p : Path) (name : String) : Path := { p with names := p.names ++ [name] }

/-- The part of a file name from its last dot on, which is neither its first nor its last
character. -/
def suffix (name : String) : Option String :=
  match name.toList.reverse.span (· ≠ '.') with
  | (_, []) => none
  | ([], _) => none
  | (_, [_]) => none
  | (ending, _) => some (String.ofList ('.' :: ending.reverse))

/-- The path of `b` as seen from the folder `a`, as it is written. -/
def joined (a b : String) : String :=
  if b.startsWith "/" then b
  else if a = "" ∨ a.endsWith "/" then a ++ b
  else a ++ "/" ++ b

end Path

end PairGrammar
