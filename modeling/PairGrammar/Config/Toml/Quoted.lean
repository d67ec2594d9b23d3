import PairGrammar.Config.Toml.Place

/-!
# Texts in quotes

A text stands between single quotes or between double quotes, one or three on either side. Between
double quotes a backslash has a meaning: with a letter it stands for a control character, with `u`
or `U` for a code point of four or eight digits, and otherwise only before a quote or a backslash.
Code points are put in first, so that a backslash written as a code point has a meaning in turn.

A line is split at its quotes, which tells what stands outside of quotes.
-/

namespace PairGrammar.Toml

/-! ### Splitting at quotes -/

/-- Single quotes that are opened in front of a double quote are closed behind it. -/
def closeSingles : (open_ : List Text) → List Text → List Text × List Text
  | ps, [] => (ps, [])
  | ps, d :: ds =>
    if ps.length % 2 = 0 then
      closeSingles (ps.dropLast ++ Text.splitOn ['\''] (ps.getLastD [] ++ '"' :: d)) ds
    else (ps, d :: ds)

/-- The part in front of the first double quote is split at its single quotes. -/
def splitFirst : List Text → List Text
  | [] => []
  | d :: ds => Text.splitOn ['\''] d ++ ds

/-- The parts of a line that its quotes separate, in turn outside and inside of quotes. -/
def splitOnQuotes (line : Text) : List Text :=
  match Text.splitOn ['"'] line with
  | [] => []
  | d :: ds =>
    if ds ≠ [] ∧ '\'' ∈ d then
      match closeSingles (Text.splitOn ['\''] d) ds with
      | (ps, rest) => ps ++ splitFirst rest
    else splitFirst (d :: ds)

/-- How many separators stand in parts, up to the first part outside of quotes that has one. -/
def countQuoted (sep : Text) : (isInside : Bool) → List Text → Nat
  | _, [] => 0
  | isInside, p :: ps =>
    if !isInside && Text.places sep p ≠ 0 then 0
    else Text.places sep p + countQuoted sep (!isInside) ps

/-- Which of the separators of a line is the first one outside of quotes, counted from one. -/
def firstOutside (sep line : Text) : Nat := 1 + countQuoted sep false (splitOnQuotes line)

/-! ### Backslashes -/

def control? (c : Char) : Option Char :=
  match c with
  | '0' => some '\x00'
  | 'b' => some '\x08'
  | 'f' => some '\x0c'
  | 'n' => some '\n'
  | 'r' => some '\r'
  | 't' => some '\t'
  | '"' => some '"'
  | _ => none

/-- The text with its backslashes resolved. Those before `u` and `U` stay. -/
def unescape : Text → Result Text
  | [] => .ok []
  | ['\\'] => .ok ['\\']
  | '\\' :: c :: r => match control? c with
    | some d => (unescape r).map (d :: ·)
    | none =>
      if c = '\\' then (unescape r).map ('\\' :: ·)
      else if c = 'u' ∨ c = 'U' then (unescape r).map fun t => '\\' :: c :: t
      else refuse
  | c :: r => (unescape r).map (c :: ·)

def endsEscaped (t : Text) : Bool := (t.reverse.takeWhile (· = '\\')).length % 2 = 1

def hexValue? (c : Char) : Option Nat :=
  if '0' ≤ c ∧ c ≤ '9' then some (c.toNat - '0'.toNat)
  else if 'a' ≤ c ∧ c ≤ 'f' then some (c.toNat - 'a'.toNat + 10)
  else if 'A' ≤ c ∧ c ≤ 'F' then some (c.toNat - 'A'.toNat + 10)
  else none

/-- The greatest number that is tried as a code point. -/
def greatestTried : Nat := 0x7FFFFFFF

/-- The character of a code point. A code point of a pair that starts with `d` is refused, and the
others of pairs count as replacement characters. -/
def character (digits : Text) : Result Char :=
  match digits.mapM hexValue?, digits with
  | none, _ => refuse
  | some _, [] => breakDown .textEnds
  | some vs, c :: r =>
    if c = 'd' ∨ c = 'D' then match r with
      | [] => breakDown .textEnds
      | e :: _ => if '0' ≤ e ∧ e ≤ '7' then value vs else refuse
    else value vs
where
  value (vs : List Nat) : Result Char :=
    let n := vs.foldl (fun n d => 16 * n + d) 0
    if greatestTried < n then breakDown .codePointTooBig
    else if 0x10FFFF < n then refuse
    else .ok (if n.isValidChar then Char.ofNat n else '\uFFFD')

/-- Puts in the code points behind a mark. A mark whose backslash is escaped stays as it is. -/
def putCodePoints (mark : Text) (count : Nat) : (done : Text) → (isEscaped : Bool) → List Text →
    Result Text
  | done, _, [] => .ok done
  | done, true, p :: ps => putCodePoints mark count (done ++ mark ++ p) (endsEscaped p) ps
  | done, false, p :: ps => do
    let c ← character (p.take count)
    putCodePoints mark count (done ++ c :: p.drop count) false ps

def resolveCodePoints (letter : Char) (count : Nat) (t : Text) : Result Text :=
  let mark := ['\\', letter]
  match Text.splitOn mark t with
  | [] => .ok t
  | p :: ps => putCodePoints mark count p (endsEscaped p) ps

/-- Whether the backslashes of a text, which separate the parts, have a meaning each. -/
def areKnown : (isEscaped : Bool) → List Text → Bool
  | _, [] => true
  | isEscaped, [] :: ps => areKnown (!isEscaped) ps
  | isEscaped, (c :: _) :: ps =>
    ((control? c).isSome || c = 'u' || c = 'U' || isEscaped) && areKnown false ps

/-! ### Texts -/

/-- Whether the quotes that separate parts end the text with the last part. -/
def isClosed (isLong : Bool) : (isDone : Bool) → (quotes : Nat) → List Text → Bool
  | _, _, [] => true
  | isDone, quotes, [] :: ps =>
    if isLong then isClosed isLong isDone (quotes + 1) ps else isClosed isLong true quotes ps
  | isDone, quotes, p :: ps =>
    if endsEscaped p then isClosed isLong isDone quotes ps
    else if isDone then false
    else if !isLong ∨ 1 < quotes then isClosed isLong true quotes ps
    else isClosed isLong isDone 0 ps

/-- The text without its first and last character. -/
def inner (t : Text) : Text := (t.drop 1).dropLast

/-- The text without two more quotes on either side. -/
def shorten (quote : Char) (t : Text) : Text :=
  match t with
  | [_, c] => if c = quote then [] else t
  | _ :: c :: d :: _ => if c = quote ∧ d = c then (t.drop 2).dropLast.dropLast else t
  | _ => t

/-- What a text in quotes says. -/
def readText (quote : Char) (t : Text) : Result Toml := do
  let parts := Text.splitOn [quote] (t.drop 1)
  let isLong := parts.length ≥ 2 && parts.take 2 = [[], []]
  if !isClosed isLong false 0 (if isLong then parts.drop 2 else parts) then refuse
  else if quote = '"' then
    if !areKnown false (Text.splitOn ['\\'] t).tail then refuse
    else
      let t ← resolveCodePoints 'u' 4 t
      let t ← resolveCodePoints 'U' 8 t
      let t ← unescape t
      return text (inner (shorten quote t))
  else return text (inner (shorten quote t))

end PairGrammar.Toml
