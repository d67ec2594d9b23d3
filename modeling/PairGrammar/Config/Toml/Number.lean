import PairGrammar.Config.Toml.Place
import PairGrammar.Numeral.Integer

/-!
# Numbers and moments

An integer has base ten or, behind a mark, base sixteen, eight or two; a number with a point or an
exponent is a floating-point number. Digits of all scripts are read like those of ASCII. A moment
is a date, a date with a time, or a time; of a date only its numbers and their places count.
-/

namespace PairGrammar.Toml

/-! ### Characters of numbers -/

/-- The same text in ASCII, blanks at its ends left out. What belongs to no number becomes a
question mark. -/
def plain (t : Text) : Text :=
  let isSpace := fun (c : Char) => c = ' ' || ('\t' ≤ c && c ≤ '\r')
  let t := t.map fun c =>
    if c.toNat < 0x80 then c
    else if isBlank c then ' '
    else match Numeral.decimalValue? c with
      | some d => Char.ofNat ('0'.toNat + d)
      | none => '?'
  ((t.dropWhile isSpace).reverse.dropWhile isSpace).reverse

def lower (t : Text) : Text := t.map Char.toLower

def hasExponent (t : Text) : Bool := t.contains 'e' || t.contains 'E'

def withoutUnderscores (t : Text) : Text := t.filter (· ≠ '_')

/-- Whether every underscore stands between two digits. -/
def joinsDigits : (before : Option Char) → Text → Bool
  | _, [] => true
  | before, '_' :: r =>
    before.any Char.isDigit && r.head?.any Char.isDigit && joinsDigits (some '_') r
  | _, c :: r => joinsDigits (some c) r

/-! ### Integers -/

def digitValue? (c : Char) : Option Nat :=
  if '0' ≤ c ∧ c ≤ '9' then some (c.toNat - '0'.toNat)
  else if 'a' ≤ c ∧ c ≤ 'f' then some (c.toNat - 'a'.toNat + 10)
  else none

def natural? (base : Nat) (t : Text) : Option Nat :=
  match t.mapM digitValue? with
  | none => none
  | some ds =>
    if ds = [] ∨ ds.any (base ≤ ·) then none else some (ds.foldl (fun n d => base * n + d) 0)

/-- A natural number in base ten is zero or starts with another digit than zero. -/
def unsigned? (t : Text) : Option Nat :=
  match lower t with
  | '0' :: 'x' :: r => natural? 16 r
  | '0' :: 'o' :: r => natural? 8 r
  | '0' :: 'b' :: r => natural? 2 r
  | ds =>
    if Numeral.maxLength < ds.length then none
    else if ds.head? = some '0' ∧ ds.any (· ≠ '0') then none
    else natural? 10 ds

def integer? (t : Text) : Option Int :=
  match plain t with
  | '-' :: r => (unsigned? r).map fun n => -(n : Int)
  | '+' :: r => (unsigned? r).map fun n => (n : Int)
  | r => (unsigned? r).map fun n => (n : Int)

/-! ### Floating-point numbers -/

/-- A power of ten is told from the number of digits where it is out of reach anyhow. -/
def magnitude (digits : Text) (exponent : Int) : Nat :=
  let n := Numeral.value digits
  if n = 0 ∨ exponent + digits.length < -400 then 0
  else if 400 < exponent then Binary64.infinity
  else Binary64.magnitudeOf (n * Nat.pow 10 exponent.toNat) (Nat.pow 10 (-exponent).toNat)

def exponent? : Text → Option Int
  | [] => some 0
  | _ :: r =>
    let size := fun (ds : Text) =>
      if ds ≠ [] && Numeral.isDecimal ds then some (Numeral.value ds : Int) else none
    match r with
    | '-' :: ds => (size ds).map (-·)
    | '+' :: ds => size ds
    | ds => size ds

def unsignedFloat? (t : Text) : Option Nat :=
  match t.span fun c => c ≠ 'e' && c ≠ 'E' with
  | (mantissa, tail) => match mantissa.span (· ≠ '.'), exponent? tail with
    | _, none => none
    | (whole, point), some e =>
      let places := point.drop 1
      let digits := whole ++ places
      if digits ≠ [] && Numeral.isDecimal digits then some (magnitude digits (e - places.length))
      else none

/-- The magnitude of a number, which may have a sign, be infinite or be none. -/
def magnitude? (t : Text) : Option Nat :=
  let t := plain t
  let body := match t with
    | '-' :: r => r
    | '+' :: r => r
    | r => r
  if lower body = "inf".toList ∨ lower body = "infinity".toList then some Binary64.infinity
  else if lower body = "nan".toList then some Binary64.quietNaN
  else if joinsDigits none t then unsignedFloat? (withoutUnderscores body)
  else none

/-! ### Moments -/

/-- Two digits each for hours, minutes and seconds, and a fraction of three to six digits. -/
def startsAsTime (t : Text) : Bool :=
  match t with
  | a :: b :: ':' :: c :: d :: ':' :: e :: f :: _ => [a, b, c, d, e, f].all Char.isDigit
  | _ => false

/-- A time of the day, whatever may follow it. -/
def time? (t : Text) : Option Toml :=
  let number := fun (k : Nat) => Numeral.value ((t.drop k).take 2)
  if number 0 < 24 ∧ number 3 < 60 ∧ number 6 < 60 then some (moment .time) else none

/-- A distance to the universal time, such as `Z` or `+01:00`. -/
def isOffset (t : Text) : Bool :=
  t = ['Z'] || ((Numeral.integer? ((t.drop 1).take 2)).isSome &&
    (Numeral.integer? ((t.drop 4).take 2)).isSome)

/-- The digits behind the point of a second, as millionths. They count if they are a number. -/
def millionths (t : Text) : Result Int :=
  match Numeral.integer? t with
  | none => .ok 0
  | some n =>
    if t.length ≤ 6 then .ok (n * Nat.pow 10 (6 - t.length))
    else
      let whole := Binary64.ofRat n
      let unit := Binary64.ofRat (mkRat 1 (Nat.pow 10 (t.length - 6)))
      if !whole.isFinite then breakDown .fractionTooLong
      else
        let x := (Binary64.ofRat (whole.toRat * unit.toRat)).toRat
        .ok (if x < 0 then x.ceil else x.floor)

/-- The millionths of what stands behind the seconds of a date. -/
def fraction (t : Text) : Result Int :=
  match t with
  | '.' :: r =>
    if t.getLast?.any fun c => c = 'Z' ∨ c = 'z' then millionths r.dropLast
    else
      let mark := if r.contains '+' then '+' else '-'
      match r.span (· ≠ mark) with
      | (digits, []) => millionths digits
      | (digits, offset) => if isOffset offset then millionths digits else .ok 0
  | _ => .ok 0

def isLeapYear (y : Int) : Bool := y % 4 = 0 && (y % 100 ≠ 0 || y % 400 = 0)

def daysOf (year month : Int) : Int :=
  if month = 2 then if isLeapYear year then 29 else 28
  else if month = 4 ∨ month = 6 ∨ month = 9 ∨ month = 11 then 30
  else 31

def isDay (year month day : Int) : Bool :=
  1 ≤ year && year ≤ 9999 && 1 ≤ month && month ≤ 12 && 1 ≤ day && day ≤ daysOf year month

def isTimeOfDay (hour minute second millionths : Int) : Bool :=
  0 ≤ hour && hour < 24 && 0 ≤ minute && minute < 60 && 0 ≤ second && second < 60 &&
    0 ≤ millionths && millionths < 1000000

/-- The date, with a time or without, that a text is. -/
def date? (t : Text) : Result (Option Toml) := do
  let millionths ← fraction (t.drop 19)
  let number := fun (start count : Nat) => Numeral.integer? ((t.drop start).take count)
  if !(t.drop 1).contains '-' then return none
  match number 0 4, number 5 2, number 8 2 with
  | some year, some month, some day =>
    if t.length = 10 then return if isDay year month day then some (moment .date) else none
    else match number 11 2, number 14 2, number 17 2 with
      | some hour, some minute, some second =>
        return if isDay year month day && isTimeOfDay hour minute second millionths then
          some (moment .dateTime) else none
      | _, _, _ => return none
  | _, _, _ => return none

/-! ### Numbers as values -/

/-- Whether a number is written without superfluous zeros in front and without underscores at its
ends, next to a point, or next to each other. -/
def isStrict (t : Text) : Bool :=
  let t := Text.trim t
  let hasNeighbours := fun (a b : Char) => Text.places [a, b] t ≠ 0
  match t, t.getLast? with
  | c :: r, some z =>
    if c = '_' ∨ z = '_' ∨ hasNeighbours '_' '.' ∨ hasNeighbours '.' '_' then false
    else if r = [] then true
    else
      let second := fun (cs : List Char) => r.head?.any cs.contains
      if c = '0' ∧ !second ['.', 'o', 'b', 'x'] then false
      else if (c = '+' ∨ c = '-') ∧ second ['0'] ∧ 1 < r.length ∧ r[1]? ≠ some '.' then false
      else Text.places ['_', '_'] (if c = '+' ∨ c = '-' then r else t) = 0
  | _, _ => false

/-- The sign in front of a number does not make zero negative. -/
def signed (isNegative : Bool) (magnitude : Nat) : Toml :=
  float ⟨isNegative && magnitude ≠ 0 && magnitude ≤ Binary64.infinity, magnitude⟩

def readNumber (t : Text) : Result Toml := do
  let isNegative := t.head? = some '-'
  let body := withoutUnderscores (match t with
    | '-' :: r => r
    | '+' :: r => r
    | r => r)
  if body.contains '.' ∨ (!body.contains 'x' ∧ hasExponent body) then
    if body.getLast? = some '.' ∧ body.count '.' = 1 then refuse
    else if !body.head?.any Char.isDigit then refuse
    else match magnitude? body with
      | none => refuse
      | some m => return signed isNegative m
  else if lower body = "inf".toList then return signed isNegative Binary64.infinity
  else if lower body = "nan".toList then return signed isNegative Binary64.quietNaN
  else match integer? body with
    | none => refuse
    | some n => return integer (if isNegative then -n else n)

end PairGrammar.Toml
