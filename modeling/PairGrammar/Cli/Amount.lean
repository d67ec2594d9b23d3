import PairGrammar.Config
import PairGrammar.Generator

/-!
# Amounts

Where a command needs a number, the command line gives an integer, and the configuration may also
give a floating-point number or a truth value. Each means a point of the number line: a limit is
met at the first whole level that is not below it, and that many pairs are generated until their
number is not below it.
-/

namespace PairGrammar

inductive Amount
  | integer (n : Int)
  | float (x : Binary64)
  | boolean (b : Bool)
  deriving DecidableEq, Repr

namespace Amount

def string : Amount → String
  | integer n => (Scalar.integer n).string
  | float x => (Scalar.float x).string
  | boolean b => (Scalar.boolean b).string

/-- The least whole number that is not below the amount. No whole number is below what is not a
number, and all that matter are below infinity. -/
def ceiling : Amount → Int
  | integer n => n
  | boolean b => if b then 1 else 0
  | float x =>
    if x.isNaN then 0
    else if x.isFinite then x.toRat.ceil
    else if x.negative then -(Nat.pow 2 1024 : Nat) else (Nat.pow 2 1024 : Nat)

/-- The whole number that is left without the places behind the point, if there is one. -/
def truncated? : Amount → Option Int
  | integer n => some n
  | boolean b => some (if b then 1 else 0)
  | float x =>
    if !x.isFinite then none
    else some (if x.negative then x.toRat.ceil else x.toRat.floor)

def isAtMostZero : Amount → Bool
  | integer n => n ≤ 0
  | boolean b => !b
  | float x => !x.isNaN && (x.negative || x.magnitude = 0)

/-- Whether the amount is exactly a number of things. -/
def isCount (a : Amount) (n : Nat) : Bool :=
  match a with
  | integer k => k = n
  | boolean b => (if b then 1 else 0) = n
  | float x => x.isFinite && x.toRat = n

/-- As many requests as it takes to reach the amount, or no end of them. -/
def quota (a : Amount) : Quota :=
  if a.isAtMostZero then .endless
  else match a with
    | float x => if x.isNaN || x.isFinite then .left a.ceiling.toNat else .endless
    | _ => .left a.ceiling.toNat

/-! ### Seeds -/

/-- The modulus of `residue`. -/
def residueModulus : Nat := 0x1FFFFFFFFFFFFFFF

/-- The number modulo `2 ^ 61 - 1`, where two to the power of sixty-one is one, with its sign; the
value minus one is left out. -/
def residue (x : Binary64) : Int :=
  let n := match Binary64.parts x.magnitude with
    | (m, e) => m * Nat.pow 2 (e.emod 61).toNat % residueModulus
  if !x.negative then n else if n = 1 then -2 else -(n : Int)

/-- The number of words of sixty-four bits. -/
def wordCount : Nat := 0x10000000000000000

/-- The seed that an amount stands for: an integer without its sign, and the residue of another
number as a word of sixty-four bits. -/
def seed : Amount → Nat
  | integer n => n.natAbs
  | boolean b => if b then 1 else 0
  | float x =>
    if x.isNaN then 0
    else if x.isFinite then ((residue x).emod wordCount).toNat
    else if x.negative then wordCount - 314159 else 314159

end Amount

end PairGrammar
