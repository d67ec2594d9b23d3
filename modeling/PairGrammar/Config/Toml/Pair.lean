import PairGrammar.Config.Toml.Number
import PairGrammar.Config.Toml.Quoted

/-!
# Values and their keys

A value is read from its first character on: a text from its quote, a list from its bracket, an
inline table from its brace; the rest are truth values, times, dates and numbers. The items of a
list are alike. A line that gives a value has an equals sign behind the key; the one that counts is
the first outside of quotes, or a later one if what is behind it starts no value at all.

Values nest, and those within a value are shorter, so that the length of a value bounds its
reader.
-/

namespace PairGrammar.Toml

/-- A long text that goes on in the next line. -/
structure Unfinished where
  key : Text
  text : Text
  isEscaped : Bool

/-- How a value is read, given whether it may be a number. -/
abbrev ValueReader := (isStrict : Bool) → Text → Result Toml

/-! ### The two sides of a line -/

/-- The text in front of the `n`-th separator or the last one, and the text behind it. -/
def sides (sep : Text) (n : Nat) (t : Text) : Text × Text :=
  let ps := Text.splitMost sep n t
  (Text.joinWith sep ps.dropLast, ps.getLastD [])

/-- Whether a value may start like this. -/
def startsPlainly (t : Text) : Bool :=
  match t with
  | [] => true
  | c :: _ =>
    [' ', '\t', '\'', '"', '[', '\x7b'].contains c ||
      Text.trim t = "true".toList || Text.trim t = "false".toList

/-- Looks for the equals sign that has a value behind it, from the `n`-th on. What is behind the
present one is `value`, and `fuel` bounds the equals signs to come. -/
def settle (line : Text) : (fuel n : Nat) → (value : Text) → (strict : Bool) →
    Result (Nat × Text × Bool)
  | 0, _, _, _ => refuse
  | fuel + 1, n, value, strict =>
    if startsPlainly value ∨ (magnitude? value).isSome then .ok (n, value, strict)
    else do
      if (← date? value).isSome ∨ startsAsTime value then return (n, value, strict)
      let next := (sides ['='] (n + 1) line).2
      if next = value then refuse
      else settle line fuel (n + 1) next (strict && isStrict next)

/-- The key and the value of a line, and whether the value may be a number. -/
def split (line : Text) : Result (Text × Text × Bool) := do
  let n := firstOutside ['='] line
  let value := (sides ['='] n line).2
  let value' := if value.head?.any Char.isDigit then withoutUnderscores value else value
  let (n, value, strict) ← settle line (line.length + 2) n value' (isStrict value)
  return (Text.trim (sides ['='] n line).1, Text.trim value, strict)

/-! ### Keys -/

/-- The parts of a key with dots. -/
def levels (key : Text) : List Text :=
  let byDots := fun (t : Text) => (Text.splitOn ['.'] t).map Text.trim
  let rec alternate : (isInside : Bool) → List Text → List Text
    | _, [] => []
    | true, p :: ps => p :: alternate false ps
    | false, p :: ps => byDots p ++ alternate true ps
  if key.any fun c => c = '"' ∨ c = '\'' then alternate false (splitOnQuotes key)
  else Text.splitOn ['.'] key

/-- Goes down from place to place and makes the tables that are missing. Empty keys are passed
over. -/
def descend (root : Toml) (p : Place) : List Text → Result (Toml × Place)
  | [] => .ok (root, p)
  | k :: ks =>
    if k = [] then descend root p ks
    else do
      let (root, p) ← root.enterOrMake p k emptyTable
      descend root p ks

/-- The place and the last part of a key. -/
def locateKey (root : Toml) (p : Place) (key : Text) : Result (Toml × Place × Text) :=
  if key.contains '.' then
    match ((levels key).reverse.dropWhile (· = [])) with
    | [] => breakDown .listEnds
    | k :: ks => do
      let (root, p) ← descend root p ks.reverse
      return (root, p, Text.trim k)
  else match key with
    | [] => breakDown .textEnds
    | c :: _ =>
      if (c = '"' ∨ c = '\'') ∧ key.getLast? = some c then do
        return (root, p, ← unescape (inner key))
      else .ok (root, p, key)

/-! ### Long texts -/

def startsWithQuote (t : Text) : Bool :=
  match t with
  | [] => false
  | c :: _ => c = '"' || c = '\''

def holdsTexts (list : Text) : Bool := startsWithQuote (Text.trim (inner list))

/-- The last item of a list of texts that is not closed, with its commas. -/
def lastText : (fuel : Nat) → List Text → Result Text
  | 0, _ => .ok []
  | fuel + 1, ps => match ps.reverse with
    | [] => .ok []
    | [p] => .ok p
    | [] :: _ => breakDown .textEnds
    | p :: q :: rest =>
      if startsWithQuote p then .ok p
      else lastText fuel (rest.reverse ++ [q ++ ',' :: p])

/-- The part of a value that a long text makes which goes on in the next line, if it does. -/
def unfinished? (value : Text) : Result (Option Text) := do
  if value.length < 3 then return none
  let part ← if value.head? = some '[' ∧ value.getLast? ≠ some ']' ∧ holdsTexts value then
      let ps := Text.splitOn [','] (Text.trim (value.drop 1))
      lastText ps.length ps
    else .ok value
  match part with
  | [] => breakDown .textEnds
  | [c] => if startsWithQuote [c] then breakDown .textEnds else return none
  | c :: d :: r =>
    if !startsWithQuote part ∨ d ≠ c then return none
    else match r with
      | [] => breakDown .textEnds
      | e :: _ =>
        if e ≠ c then return none
        else if 5 < part.length ∧ (part.reverse.take 3).all (· = c) then return none
        else return some part

/-! ### Lines with a key and a value -/

/-- Reads a line and puts its value at a place, unless the value goes on in the next line. -/
def readPair (read : ValueReader) (root : Toml) (p : Place) (line : Text) :
    Result (Toml × Option Unfinished) := do
  let (key, value, strict) ← split line
  let (root, p, k) ← locateKey root p key
  let part ← unfinished? value
  let w ← match part with
    | some _ => pure none
    | none => (read strict value).map some
  match root.get? p with
  | some (table fs _) =>
    if (fs.lookup k).isSome then refuse
    else match part, w with
      | some part, _ =>
        let isEscaped := endsEscaped part
        let start := if isEscaped then value.dropLast else value ++ ['\n']
        if k = [] then breakDown .valueMissing else return (root, some ⟨k, start, isEscaped⟩)
      | none, some w => return (← root.assign p k w, none)
      | none, none => refuse
  | _ => refuse

/-! ### Inline tables -/

/-- Whether a value stands whole between two commas. -/
def isWhole (value : Text) : Result Bool :=
  match value, value.getLast? with
  | c :: _, some z =>
    .ok <| (c = z && startsWithQuote value) || c = '-' || c.isDigit || value = "true".toList ||
      value = "false".toList || (c = '[' && z = ']') || (c = '\x7b' && z = '\x7d')
  | _, _ => breakDown .textEnds

/-- The lines between the commas of an inline table. A comma within a value is put back. -/
def inlineLines : List Text → Result (List Text)
  | [] => .ok []
  | line :: rest => match Text.splitMost ['='] 1 line with
    | [_, value] => do
      if ← isWhole (Text.trim value) then return line :: (← inlineLines rest)
      else match rest with
        | [] => refuse
        | next :: rest => inlineLines ((line ++ ',' :: next) :: rest)
    | _ => refuse
termination_by lines => lines.length

/-- Reads lines one after the other, up to one that is not finished. -/
def readPairs (read : ValueReader) (p : Place) : Toml → List Text → Result Toml
  | root, [] => .ok root
  | root, line :: lines => do
    match ← readPair read root p line with
    | (root, none) => readPairs read p root lines
    | (root, some _) => return root

/-- Reads an inline table into a place. -/
def readInline (read : ValueReader) (root : Toml) (p : Place) (t : Text) : Result Toml := do
  let parts := Text.splitOn [','] (inner t)
  let lines ← inlineLines (if parts.length = 1 ∧ parts.all (Text.trim · = []) then [] else parts)
  readPairs read p root lines

/-! ### Lists -/

/-- Whether a text in quotes is closed, so that the comma behind it ends an item. -/
def isBounded (t : Text) : Bool :=
  match t, t.getLast? with
  | c :: r, some z => z = c && !endsEscaped r.dropLast
  | _, _ => true

def opensLong (t : Text) : Bool :=
  match t, t.reverse with
  | a :: b :: c :: _, _ :: y :: z :: _ => a = b && b = c && y ≠ a && z ≠ a
  | _, _ => false

/-- Puts back the commas within texts. -/
def mergeTexts : List Text → Result (List Text)
  | [] => .ok []
  | [p] => .ok [p]
  | p :: q :: ps =>
    let t := Text.trim p
    if isBounded t && !opensLong t then (mergeTexts (q :: ps)).map (p :: ·)
    else
      let t := Text.trim (p ++ ',' :: q)
      match ps with
      | [] => if isBounded t && !opensLong t then .ok [p ++ ',' :: q] else breakDown .listEnds
      | r :: ps => mergeTexts ((p ++ ',' :: q) :: r :: ps)
termination_by ps => ps.length

/-- The inline tables in a list of them. `part` is what has been read of the present one, backwards,
and `slashes` the number of backslashes right before. -/
def tableItems : (part : Text) → (depth : Nat) → (isInside : Bool) → (slashes : Nat) → Text →
    List Text
  | _, _, _, _, [] => []
  | part, depth, isInside, slashes, c :: r =>
    let isInside := if startsWithQuote [c] then !isInside || slashes % 2 = 1 else isInside
    let depth := if !isInside && c = '\x7b' then depth + 1 else depth
    let slashes := if c = '\\' then slashes + 1 else 0
    if isInside ∨ c ≠ '\x7d' then tableItems (c :: part) depth isInside slashes r
    else if 1 < depth then tableItems (c :: part) (depth - 1) isInside slashes r
    else (c :: part).reverse :: match _h : (r.drop 1).dropWhile (· ≠ '\x7b') with
      | [] => []
      | d :: r' => tableItems [d] depth isInside 0 r'
termination_by _ _ _ _ t => t.length
decreasing_by
  · exact Nat.lt_succ_self _
  · exact Nat.lt_succ_self _
  · have h := List.Sublist.length_le (List.dropWhile_sublist (· ≠ '\x7b') (l := r.drop 1))
    rw [_h] at h
    simp only [List.length_cons, List.length_drop] at h ⊢
    omega

/-- The items at the commas outside of inner lists. -/
def listItems : (part : Text) → (depth : Int) → Text → List Text
  | part, _, [] => [part.reverse]
  | part, depth, c :: r =>
    if c = '[' then listItems (c :: part) (depth + 1) r
    else if c = ']' then listItems (c :: part) (depth - 1) r
    else if c = ',' ∧ depth = 0 then part.reverse :: listItems [] depth r
    else listItems (c :: part) depth r

/-- The items of a list as they are written. -/
def items (t : Text) : Result (List Text) :=
  let body := inner t
  if body.contains '[' && Text.trim (body.takeWhile (· ≠ '[')) = [] then
    .ok (listItems [] 0 body)
  else match Text.trim body, body with
    | '\x7b' :: _, c :: r => .ok (tableItems [c] (if c = '\x7b' then 1 else 0) false 0 r)
    | _, _ =>
      let ps := Text.splitOn [','] body
      if holdsTexts t then mergeTexts ps else .ok ps

/-- The values of items, which have to be alike. -/
def readItems (read : ValueReader) : List Toml → List Text → Result (List Toml)
  | vs, [] => .ok vs.reverse
  | vs, p :: ps =>
    let t := Text.trim p
    if t = [] then readItems read vs ps
    else do
      let v ← read true t
      if vs.all fun w => w.kind.isAlike v.kind then readItems read (v :: vs) ps else refuse

/-! ### Values -/

def readValue : (fuel : Nat) → ValueReader
  | 0, _, _ => refuse
  | fuel + 1, strict, t => match t with
    | [] => refuse
    | '"' :: _ => readText '"' t
    | '\'' :: _ => readText '\'' t
    | '[' :: _ => do return list (← readItems (readValue fuel) [] (← items t))
    | '\x7b' :: _ => readInline (readValue fuel) (table [] true) [] t
    | _ =>
      if t = "true".toList then .ok (boolean true)
      else if t = "false".toList then .ok (boolean false)
      else if lower t = "true".toList ∨ lower t = "false".toList then refuse
      else if startsAsTime t then (time? t).elim refuse Except.ok
      else do
        match ← date? t with
        | some v => return v
        | none => if strict then readNumber t else refuse

end PairGrammar.Toml
