import PairGrammar.Text.Quoted

/-!
# Floating-point numbers of sixty-four bits

A number is a sign and a magnitude, the lower sixty-three bits of its word: eleven bits of exponent
and fifty-two of fraction. The magnitudes are ordered as the numbers are, and the numbers of one
exponent are equally far apart, which makes rounding a matter of whole numbers: a ratio is scaled
to the spacing around it and rounded there, a half to the even neighbour. Where the rounding leads
to the next power of two, the carry makes the right exponent by itself.
-/

namespace PairGrammar

structure Binary64 where
  negative : Bool
  magnitude : Nat
  deriving DecidableEq, Repr

namespace Binary64

def fractionBits : Nat := 52

/-- The magnitude of infinity; those above it are no numbers. -/
def infinity : Nat := 0x7FF * Nat.pow 2 fractionBits

/-- The magnitude of what is no number, where there is no other reason to choose one. -/
def quietNaN : Nat := infinity + Nat.pow 2 (fractionBits - 1)

/-- The exponent of the smallest positive number. -/
def leastExponent : Int := -1074

def isNaN (x : Binary64) : Bool := infinity < x.magnitude

def isFinite (x : Binary64) : Bool := x.magnitude < infinity

/-- The quotient rounded to a whole number, a half to the even one. -/
def roundDiv (num den : Nat) : Nat :=
  let q := num / den
  let r := num % den
  if 2 * r < den ∨ (2 * r = den ∧ q % 2 = 0) then q else q + 1

/-- The exponent of the power of two just below a positive ratio. -/
def exponentOf (num den : Nat) : Int :=
  let e : Int := (num.log2 : Int) - den.log2
  if den * Nat.pow 2 e.toNat ≤ num * Nat.pow 2 (-e).toNat then e else e - 1

/-- The magnitude nearest to a ratio. -/
def magnitudeOf (num den : Nat) : Nat :=
  if num = 0 then 0
  else
    let s := max (exponentOf num den - fractionBits) leastExponent
    let m := roundDiv (num * Nat.pow 2 (-s).toNat) (den * Nat.pow 2 s.toNat)
    min infinity ((s - leastExponent).toNat * Nat.pow 2 fractionBits + m)

def ofRat (x : Rat) : Binary64 := ⟨x.num < 0, magnitudeOf x.num.natAbs x.den⟩

/-- The whole number and the exponent of two that make a finite magnitude. -/
def parts (magnitude : Nat) : Nat × Int :=
  let e := magnitude / Nat.pow 2 fractionBits
  let f := magnitude % Nat.pow 2 fractionBits
  if e = 0 then (f, leastExponent)
  else (f + Nat.pow 2 fractionBits, leastExponent + (e - 1 : Nat))

def twoTo (e : Int) : Rat := mkRat (Nat.pow 2 e.toNat) (Nat.pow 2 (-e).toNat)

/-- The number itself; what is not finite counts as zero. -/
def toRat (x : Binary64) : Rat :=
  if x.isFinite then
    match parts x.magnitude with
    | (m, e) => (if x.negative then -1 else 1) * (m * twoTo e)
  else 0

/-- The word that has the bit of the sign only. -/
def signWord : Nat := 0x8000000000000000

def word (x : Binary64) : Nat := (if x.negative then signWord else 0) + x.magnitude

/-- The word in sixteen digits of base sixteen. -/
def hex (x : Binary64) : Text := Text.hexDigits 16 x.word

end Binary64

end PairGrammar
