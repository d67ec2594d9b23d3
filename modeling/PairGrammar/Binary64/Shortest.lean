import PairGrammar.Binary64

/-!
# Shortest decimal text

The text of a number has the fewest digits that are read back as the number, and of those the
digits nearest to it. The decimals that are read back as a number lie between the midpoints to its
neighbours; the midpoints belong to it if its fraction is even. If a grid of decimals has a point
between them, one of the two around the number is such a point, so these are tried, from one digit
on; seventeen always suffice.
-/

namespace PairGrammar.Binary64

def tenTo (e : Int) : Rat := mkRat (Nat.pow 10 e.toNat) (Nat.pow 10 (-e).toNat)

/-- The decimals that are read back as one magnitude. -/
structure Basin where
  value : Rat
  low : Rat
  high : Rat
  closed : Bool

/-- A power of two has its lower neighbour half as far away as its upper one. -/
def basin (magnitude : Nat) : Basin :=
  match parts magnitude with
  | (m, e) =>
    let below : Rat :=
      if m = Nat.pow 2 fractionBits ∧ leastExponent < e then mkRat 1 4 else mkRat 1 2
    ⟨m * twoTo e, (m - below) * twoTo e, (m + mkRat 1 2) * twoTo e, m % 2 = 0⟩

def Basin.contains (b : Basin) (x : Rat) : Bool :=
  if b.closed then b.low ≤ x && x ≤ b.high else b.low < x && x < b.high

/-- Decimal digits, and the exponent of ten of the first one. -/
structure Digits where
  digits : Text
  exponent : Int
  deriving DecidableEq, Repr

def Digits.ofNat (n : Nat) (unit : Int) : Digits :=
  let ds := Nat.toDigits 10 n
  ⟨(ds.reverse.dropWhile (· = '0')).reverse, unit + (ds.length - 1 : Nat)⟩

/-- The exponent of ten of the first digit of a positive number that is not below `10 ^ -400`. -/
def leadingExponent (x : Rat) : Int :=
  ((Nat.toDigits 10 (x * tenTo 400).floor.toNat).length : Int) - 401

/-- The better of the two decimals around the number with `k` digits, if one is read back. -/
def candidate (b : Basin) (k : Nat) : Option Digits :=
  let unit := leadingExponent b.value - (k - 1 : Nat)
  let n := (b.value / tenTo unit).floor.toNat
  let down : Rat := n * tenTo unit
  let up : Rat := (n + 1 : Nat) * tenTo unit
  match b.contains down, b.contains up with
  | false, false => none
  | true, false => some (.ofNat n unit)
  | false, true => some (.ofNat (n + 1) unit)
  | true, true =>
    if b.value - down < up - b.value ∨ (b.value - down = up - b.value ∧ n % 2 = 0) then
      some (.ofNat n unit)
    else some (.ofNat (n + 1) unit)

/-- The shortest digits of a positive finite magnitude. -/
def shortest (magnitude : Nat) : Digits :=
  let b := basin magnitude
  (((List.range 17).map (· + 1)).findSome? (candidate b)).getD ⟨['0'], 0⟩

/-! ### The written form -/

/-- From this exponent of the first digit on, and below the other, numbers have an exponent. -/
def positionalBelow : Int := 16

def positionalFrom : Int := -4

def decimal (n : Nat) : Text := Nat.toDigits 10 n

/-- A sign and at least two digits. -/
def exponentText (e : Int) : Text :=
  (if e < 0 then '-' else '+') :: (if e.natAbs < 10 then '0' :: decimal e.natAbs
    else decimal e.natAbs)

/-- A whole number keeps one zero behind its point, and a number with an exponent has no point
behind a single digit. -/
def Digits.text (d : Digits) : Text :=
  if positionalFrom ≤ d.exponent ∧ d.exponent < positionalBelow then
    if d.exponent < 0 then
      ['0', '.'] ++ List.replicate (-d.exponent - 1).toNat '0' ++ d.digits
    else
      let k := d.exponent.toNat + 1
      if d.digits.length ≤ k then
        d.digits ++ List.replicate (k - d.digits.length) '0' ++ ['.', '0']
      else d.digits.take k ++ '.' :: d.digits.drop k
  else
    (match d.digits with
      | [] => []
      | [c] => [c]
      | c :: r => c :: '.' :: r) ++ 'e' :: exponentText d.exponent

def text (x : Binary64) : Text :=
  if x.isNaN then ['n', 'a', 'n']
  else (if x.negative then ['-'] else []) ++
    (if !x.isFinite then ['i', 'n', 'f']
    else if x.magnitude = 0 then ['0', '.', '0']
    else (shortest x.magnitude).text)

end PairGrammar.Binary64
