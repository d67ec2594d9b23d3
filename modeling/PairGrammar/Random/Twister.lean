import PairGrammar.Random.Dice

/-!
# The Mersenne twister

The generator MT19937: 624 words of 32 bits, renewed together and tempered one by one. A seed is a
natural number, taken apart into words, the least significant first, from which the reference
procedure for arrays fills the state.

A number below `n` is drawn by taking as many bits as `n` has, again and again until they make a
number below `n`. Each attempt succeeds with probability at least one half, so the bound on the
attempts, `patience`, is never met in practice; it makes the draw total. The main statement,
`below_lt`, is that what is drawn is below `n`.
-/

namespace PairGrammar

structure Twister where
  words : Array UInt32
  next : Nat

namespace Twister

def size : Nat := 624

/-! ### Seeding -/

def spread (w : UInt32) : UInt32 := w ^^^ (w >>> 30)

/-- The state that the first word alone determines. -/
def fill (w : UInt32) : Array UInt32 :=
  (List.range (size - 1)).foldl
    (fun a i => a.push (1812433253 * spread (a.getD i 0) + UInt32.ofNat (i + 1))) #[w]

/-- Behind the last word comes the second: the first then takes the value of the last. -/
def wrap (a : Array UInt32) (i : Nat) : Array UInt32 × Nat :=
  if i < size then (a, i) else (a.setIfInBounds 0 (a.getD (size - 1) 0), 1)

def mixKey (key : Array UInt32) : (rounds i j : Nat) → Array UInt32 → Array UInt32 × Nat
  | 0, i, _, a => (a, i)
  | k + 1, i, j, a =>
    let w := (a.getD i 0 ^^^ (spread (a.getD (i - 1) 0) * 1664525)) + key.getD j 0 + UInt32.ofNat j
    match wrap (a.setIfInBounds i w) (i + 1) with
    | (a', i') => mixKey key k i' (if j + 1 < key.size then j + 1 else 0) a'

def mixIndex : (rounds i : Nat) → Array UInt32 → Array UInt32
  | 0, _, a => a
  | k + 1, i, a =>
    let w := (a.getD i 0 ^^^ (spread (a.getD (i - 1) 0) * 1566083941)) - UInt32.ofNat i
    match wrap (a.setIfInBounds i w) (i + 1) with
    | (a', i') => mixIndex k i' a'

def ofKey (key : Array UInt32) : Twister :=
  match mixKey key (max size key.size) 1 0 (fill 19650218) with
  | (a, i) => ⟨(mixIndex (size - 1) i a).setIfInBounds 0 0x80000000, size⟩

/-- The words of a number, the least significant first; zero has none. -/
def wordsOf (n : Nat) : List UInt32 :=
  if h : n = 0 then [] else UInt32.ofNat n :: wordsOf (n / 0x100000000)
termination_by n
decreasing_by omega

def ofSeed (seed : Nat) : Twister :=
  match wordsOf seed with
  | [] => ofKey #[0]
  | ws => ofKey ws.toArray

/-! ### Output -/

def twist (a : Array UInt32) : Array UInt32 :=
  (List.range size).foldl
    (fun a k =>
      let y := (a.getD k 0 &&& 0x80000000) ||| (a.getD ((k + 1) % size) 0 &&& 0x7fffffff)
      let w := a.getD ((k + 397) % size) 0 ^^^ (y >>> 1)
      a.setIfInBounds k (if y &&& 1 = 1 then w ^^^ 0x9908b0df else w)) a

def temper (w : UInt32) : UInt32 :=
  let w := w ^^^ (w >>> 11)
  let w := w ^^^ ((w <<< 7) &&& 0x9d2c5680)
  let w := w ^^^ ((w <<< 15) &&& 0xefc60000)
  w ^^^ (w >>> 18)

def word (t : Twister) : UInt32 × Twister :=
  if t.next < size then (temper (t.words.getD t.next 0), { t with next := t.next + 1 })
  else match twist t.words with
    | a => (temper (a.getD 0 0), ⟨a, 1⟩)

/-- A number of `k` bits, the least significant word first; of the last word the upper bits. -/
def bits (k : Nat) (t : Twister) : Nat × Twister :=
  match t.word with
  | (w, t') =>
    if k ≤ 32 then (w.toNat >>> (32 - k), t')
    else match bits (k - 32) t' with
      | (high, t'') => (w.toNat + high <<< 32, t'')
termination_by k

def bitLength (n : Nat) : Nat := if n = 0 then 0 else n.log2 + 1

/-- How often a number that is too large is thrown away. -/
def patience : Nat := 4096

def below (n : Nat) : (attempts : Nat) → Twister → Nat × Twister
  | 0, t => (0, t)
  | k + 1, t => match t.bits (bitLength n) with
    | (r, t') => if r < n then (r, t') else below n k t'

theorem below_lt {n : Nat} (h : 0 < n) (k : Nat) (t : Twister) : (below n k t).1 < n := by
  induction k generalizing t with
  | zero => exact h
  | succ k ih =>
    rw [below]
    split
    split
    · assumption
    · exact ih _

instance : Dice Twister where
  roll total t := match below total patience t with
    | (r, t') => (r, t')

theorem roll_lt {total : Nat} (h : 0 < total) (t : Twister) :
    0 ≤ (Dice.roll total t).1 ∧ (Dice.roll total t).1 < total :=
  ⟨Int.natCast_nonneg _, Int.ofNat_lt.2 (below_lt h patience t)⟩

end Twister

end PairGrammar
