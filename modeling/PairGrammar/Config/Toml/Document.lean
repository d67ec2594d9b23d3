import PairGrammar.Config.Toml.Lines
import PairGrammar.Config.Toml.Pair

/-!
# Documents

A document is read line by line. A header opens a table, or a new item in a list of tables, into
which the following lines put their values. The tables on the way to it are made if they are
missing, and such an implicit table may get a header of its own later. It is the names of implicit
tables that are kept, and not their places.

A text between three quotes may go on over lines. It ends with a line whose last three characters
are the quotes, and a backslash at the end of a line takes the line end away.
-/

namespace PairGrammar.Toml

/-- A document that has been read up to some line. -/
structure Reading where
  root : Toml := emptyTable
  place : Place := []
  implicit : List Text := []
  unfinished : Option Unfinished := none

/-- The value of a text, which bounds its reader. -/
def readWhole (isStrict : Bool) (t : Text) : Result Toml := readValue (t.length + 1) isStrict t

/-! ### Headers -/

def isBareName (t : Text) : Bool :=
  t ≠ [] && t.all fun c => c.isAlphanum || c = '_' || c = '-'

/-- Whether a name is closed by the quote that opens it. -/
def isQuotedName (t : Text) : Bool := t.length ≠ 1 && t.head? = t.getLast?

/-- The names between the dots of a header. A name in quotes goes on over dots until it is
closed. -/
def names? : (unclosed : Option Text) → List Text → Option (List Text)
  | none, [] => some []
  | some _, [] => none
  | unclosed, p :: ps =>
    let t := match unclosed with
      | none => Text.trim p
      | some q => q ++ '.' :: p
    if startsWithQuote t then
      if isQuotedName (Text.trim t) then (names? none ps).map (inner (Text.trim t) :: ·)
      else names? (some t) ps
    else if isBareName t then (names? none ps).map (t :: ·)
    else none

/-- The names of a header, which ends its line. -/
def headerNames? (closing header : Text) : Option (List Text) :=
  let n := firstOutside closing header
  let ps := Text.splitMost closing n header
  if ps.length < n + 1 ∨ Text.trim (ps.getLastD []) ≠ [] then none
  else names? none (Text.splitOn ['.'] (Text.joinWith closing ps.dropLast))

/-- What a header makes: a table, or a list of tables with one item. -/
def newGroup (isItem : Bool) : Toml := if isItem then list [emptyTable] else emptyTable

/-- Goes to the last item of a list. A table stays as it is. -/
def placeOfItem (root : Toml) (p : Place) : Result Place :=
  match root.get? p with
  | none => refuse
  | some (table _ _) => .ok p
  | some v => do
    let _ ← v.atLast
    return p ++ [.last]

/-- Makes a table ready that has been there before the last name of a header leads to it. -/
def reopen (isItem : Bool) (r : Reading) (name : Text) (v : Toml) : Result Reading :=
  if r.implicit.contains name then
    if isItem then refuse else .ok { r with implicit := r.implicit.erase name }
  else if !isItem then refuse
  else match v with
    | list _ => .ok { r with root := r.root.modify (push emptyTable) (r.place ++ [.key name]) }
    | _ => breakDown (.notGrowing v.kind)

/-- Goes on to a name of a header, which may be the last one. Within a list it is its last item that
counts. -/
def enterGroup (isItem isFinal : Bool) (r : Reading) (name : Text) : Result Reading := do
  let new := newGroup (isItem && isFinal)
  let r ← match r.root.get? r.place with
    | none => refuse
    | some (table fs _) => do
      let r ← match fs.lookup name with
        | some v => if isFinal then reopen isItem r name v else pure r
        | none => pure { r with
            root := r.root.modify (put name new) r.place
            implicit := if isFinal then r.implicit else name :: r.implicit }
      pure { r with place := r.place ++ [.key name] }
    | some v => do
      let _ ← v.atLast
      let (root, place) ← r.root.enterOrMake (r.place ++ [.last]) name new
      pure { r with root, place }
  if isItem then return { r with place := ← placeOfItem r.root r.place } else return r

def enterGroups (isItem : Bool) : Reading → List Text → Result Reading
  | r, [] => .ok r
  | r, name :: names =>
    if name = [] then refuse
    else do enterGroups isItem (← enterGroup isItem names.isEmpty r name) names

def readHeader (r : Reading) (line : Text) : Result Reading :=
  let isItem := (line.drop 1).head? = some '['
  let names := if isItem then headerNames? [']', ']'] (line.drop 2)
    else if line.length = 1 then none
    else headerNames? [']'] (line.drop 1)
  match names with
  | none => refuse
  | some names => enterGroups isItem { r with place := [] } names

/-! ### Lines -/

/-- Goes on with a text that is not finished. -/
def Unfinished.join (u : Unfinished) (line : Text) : Unfinished :=
  let text := u.text ++ line
  if endsEscaped text then { u with text := text.dropLast, isEscaped := true }
  else { u with text := text ++ ['\n'], isEscaped := false }

/-- Whether a line is the last one of a text that is not finished. -/
def Unfinished.isClosedBy (u : Unfinished) (line : Text) : Result Bool :=
  match u.text ++ line with
  | '[' :: _ => match line.getLast? with
    | none => breakDown .textEnds
    | some c => .ok (c = ']')
  | q :: _ => .ok (2 < line.length && (line.reverse.take 3).all (· = q))
  | [] => breakDown .textEnds

/-- Lines are read without the blanks around them, but for the later lines of a text. -/
def Reading.isVerbatim (r : Reading) : Bool :=
  r.unfinished.any fun u => !u.isEscaped && u.text.contains '\n'

def readLine (r : Reading) (line : Text) : Result Reading := do
  let line := if r.isVerbatim then line else Text.trim line
  match r.unfinished, line with
  | some u, _ =>
    if line = [] ∧ u.isEscaped then return r
    else if ← u.isClosedBy line then
      let v ← readWhole true (u.text ++ line)
      return { r with root := ← r.root.assign r.place u.key v, unfinished := none }
    else return { r with unfinished := some (u.join line) }
  | none, '[' :: _ => readHeader r line
  | none, '\x7b' :: _ =>
    if line.getLast? = some '\x7d' then
      return { r with root := ← readInline (readValue line.length) r.root r.place line }
    else refuse
  | none, _ =>
    if line.contains '=' then
      let (root, unfinished) ← readPair (readValue (line.length + 1)) r.root r.place line
      return { r with root, unfinished }
    else return r

/-- The table that a document is. A text that is not finished in the end is left out. -/
def read (t : Text) : Result Fields := do
  let r ← (← lines t).foldlM readLine {}
  match r.root with
  | table fs _ => return fs
  | _ => refuse

def decode : Decoder := fun t => (read t).mapError Refusal.trouble

end PairGrammar.Toml
