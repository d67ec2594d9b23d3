import PairGrammar.Config.Toml.Place
import PairGrammar.Text.Alphanumeric

/-!
# Lines of a document

Before its lines are read, a document is gone through character by character. Comments become
spaces, and so do the line ends within lists, whose items then stand on one line. Keys are checked
to consist of letters, numbers, dashes and quoted parts, with dots between them. A text in quotes
ends on its line unless three quotes open it; the line end right behind the three quotes becomes a
fourth one in their place, which the reader of values passes over.

A quote counts as the third one if the two characters before it are quotes as well, and in front of
the first character of a document stands the last one.
-/

namespace PairGrammar.Toml

/-- The header that is open: of a table, or of an item in a list of tables. -/
inductive Header
  | none
  | single
  | item
  deriving DecidableEq, Repr

/-- The part of a key that is being read: its characters, or the space behind them. -/
inductive KeyPart
  | none
  | name
  | gap
  deriving DecidableEq, Repr

/-- A document that has been gone through up to some character. -/
structure Scan where
  chars : Array Char
  quote : Option Char := .none
  isLong : Bool := false
  depth : Int := 0
  header : Header := .none
  isFresh : Bool := true
  part : KeyPart := .none
  isDotted : Bool := false
  isDone : Bool := false

namespace Scan

/-- The character `k` places before place `i`. -/
def before? (s : Scan) (i k : Nat) : Option Char :=
  if k ≤ i then s.chars[i - k]?
  else if k ≤ i + s.chars.size then s.chars[i + s.chars.size - k]?
  else .none

def stands (s : Scan) (i k : Nat) (c : Char) : Bool := s.before? i k = some c

/-- Whether an odd number of backslashes stands from `k` places before place `i` on backwards, of
which at most `fuel` are looked at. -/
def isEscaped (s : Scan) (i : Nat) : (fuel k : Nat) → Bool
  | 0, _ => false
  | fuel + 1, k => s.stands i k '\\' && !isEscaped s i fuel (k + 1)

def set (s : Scan) (i : Nat) (c : Char) : Scan := { s with chars := s.chars.setIfInBounds i c }

/-- Whether a quote at place `i` is the third one in a row. -/
def isThird (s : Scan) (i : Nat) (c : Char) : Bool := s.stands i 1 c && s.stands i 2 c

/-! ### Keys -/

/-- Behind space or a dot at place `i`, the key goes on unless space or a dot follows. -/
def resume (s : Scan) (i : Nat) : Result Scan :=
  match s.chars[i + 1]? with
  | .none => breakDown .listEnds
  | some c => .ok (if isBlank c ∨ c = '.' then s else { s with part := .name })

/-- The scan behind a character of a key, if it is still the key that is read. -/
def readKey (s : Scan) (i : Nat) (c : Char) : Result (Option Scan) :=
  match s.quote, s.part with
  | some q, _ =>
    .ok <| some <| if c = q ∧ !s.isEscaped i i 1 then { s with quote := .none, part := .gap } else s
  | .none, .name =>
    if isBlank c then .ok (some { s with part := .gap })
    else if c = '.' then .ok (some { s with isDotted := true })
    else if Text.isAlphanumeric c ∨ c = '_' ∨ c = '-' then .ok (some s)
    else if s.isDotted ∧ s.stands i 1 '.' ∧ (c = '"' ∨ c = '\'') then
      .ok (some { s with quote := some c })
    else .ok .none
  | .none, .gap =>
    if isBlank c then if s.isDotted then (s.resume i).map some else .ok (some s)
    else if c = '.' then (({ s with isDotted := true } : Scan).resume i).map some
    else .ok .none
  | .none, .none => .ok .none

/-! ### Values -/

/-- A single quote opens or closes a text, and the third one a long text. -/
def readSingleQuote (s : Scan) (i : Nat) : Scan :=
  if s.isThird i '\'' then
    { s with isLong := !s.isLong, quote := if s.isLong then .none else some '\'' }
  else { s with quote := if s.quote.isSome then .none else some '\'' }

/-- A double quote does the same unless it is escaped. -/
def readDoubleQuote (s : Scan) (i : Nat) : Scan :=
  let fuel := i + s.chars.size + 1
  if s.isThird i '"' then
    if s.isEscaped i fuel 3 then s
    else { s with isLong := !s.isLong, quote := if s.isLong then .none else some '"' }
  else if !s.stands i 1 '"' && s.isEscaped i fuel 1 then s
  else { s with quote := if s.quote.isSome then .none else some '"' }

/-- A comment up to its line end becomes space. One that no line ends is the end of all. -/
def readComment (s : Scan) (i : Nat) : Scan :=
  let length := ((s.chars.toList.drop i).takeWhile (· ≠ '\n')).length
  { s with
    chars := (List.range length).foldl (fun cs k => cs.setIfInBounds (i + k) ' ') s.chars
    isDone := s.chars.size ≤ i + length }

def readOpening (s : Scan) (i : Nat) : Scan :=
  if s.isFresh then { s with header := if s.chars[i + 1]? = some '[' then .item else .single }
  else { s with depth := s.depth + 1 }

def readClosing (s : Scan) (i : Nat) : Scan :=
  match s.header with
  | .single => { s with header := .none }
  | .item => if s.stands i 1 ']' then { s with header := .none } else s
  | .none => { s with depth := s.depth - 1 }

def readLineEnd (s : Scan) (i : Nat) : Result Scan :=
  if s.quote.isSome ∨ s.isLong then
    if !s.isLong then refuse
    else match s.before? i 1 with
      | .none => .ok s
      | some q =>
        if (q = '\'' ∨ q = '"') ∧ s.stands i 2 q then
          let s := s.set i q
          .ok (if s.stands i 3 q then s.set (i - 3) ' ' else s)
        else .ok s
  else if s.depth ≠ 0 then .ok (s.set i ' ')
  else .ok { s with isFresh := true }

/-- The first character of a line that is no space starts a key or a header. -/
def readFirst (s : Scan) (i : Nat) : Result Scan :=
  match s.isFresh, s.chars[i]? with
  | true, some c =>
    if c = ' ' ∨ c = '\t' then .ok s
    else if s.header ≠ .none then .ok { s with isFresh := false }
    else if c = '=' then refuse
    else .ok { s with isFresh := false, part := .name }
  | _, _ => .ok s

/-- What a character outside of keys does. -/
def readCharacter (s : Scan) (i : Nat) (c : Char) : Result Scan :=
  let isPlain := s.quote = .none ∧ s.header = .none
  match c with
  | '\n' => s.readLineEnd i
  | '\'' => (if s.quote = some '"' then s else s.readSingleQuote i).readFirst i
  | '"' => (if s.quote = some '\'' then s else s.readDoubleQuote i).readFirst i
  | '#' =>
    let s := if isPlain then s.readComment i else s
    if s.isDone then .ok s else s.readFirst i
  | '[' => (if isPlain then s.readOpening i else s).readFirst i
  | ']' => (if s.quote = .none then s.readClosing i else s).readFirst i
  | _ => s.readFirst i

/-- The scan behind place `i`. -/
def read (s : Scan) (i : Nat) : Result Scan :=
  match s.isDone, s.chars[i]? with
  | true, _ => .ok s
  | _, .none => .ok s
  | _, some c =>
    if c = '\r' ∧ i + 1 = s.chars.size then breakDown .listEnds
    else if c = '\r' ∧ s.chars[i + 1]? = some '\n' then .ok (s.set i ' ')
    else if s.part = .none then s.readCharacter i c
    else if c = '\n' then refuse
    else do
      match ← s.readKey i c with
      | some s => return s
      | .none =>
        if c = '=' then ({ s with part := .none, isDotted := false } : Scan).readCharacter i c
        else refuse

end Scan

/-- The lines of a document, ready to be read. -/
def lines (t : Text) : Result (List Text) := do
  let start : Scan := { chars := t.toArray }
  let s ← (List.range t.length).foldlM Scan.read start
  if s.part ≠ .none ∨ s.quote.isSome then refuse
  else return Text.splitOn ['\n'] s.chars.toList

end PairGrammar.Toml
