import PairGrammar.Numeral

/-!
# Integers as people write them

An integer on a command line is an optional sign and digits, with single underscores between the
digits if that helps the reader, and with blanks around it. The digits may be those of any script
that writes numbers in base ten: Unicode keeps the ten digits of such a script together, so a table
of the zeros suffices. The four information separators are no blanks here.
-/

namespace PairGrammar.Numeral

/-- The zeros of the scripts with decimal digits. -/
def zeros : List Nat :=
   [0x30, 0x660, 0x6F0, 0x7C0, 0x966, 0x9E6, 0xA66, 0xAE6, 0xB66, 0xBE6, 0xC66, 0xCE6, 0xD66,
    0xDE6, 0xE50, 0xED0, 0xF20, 0x1040, 0x1090, 0x17E0, 0x1810, 0x1946, 0x19D0, 0x1A80, 0x1A90,
    0x1B50, 0x1BB0, 0x1C40, 0x1C50, 0xA620, 0xA8D0, 0xA900, 0xA9D0, 0xA9F0, 0xAA50, 0xABF0,
    0xFF10, 0x104A0, 0x10D30, 0x11066, 0x110F0, 0x11136, 0x111D0, 0x112F0, 0x11450, 0x114D0,
    0x11650, 0x116C0, 0x11730, 0x118E0, 0x11950, 0x11C50, 0x11D50, 0x11DA0, 0x16A60, 0x16AC0,
    0x16B50, 0x1D7CE, 0x1D7D8, 0x1D7E2, 0x1D7EC, 0x1D7F6, 0x1E140, 0x1E2F0, 0x1E950, 0x1FBF0]

def decimalValue? (c : Char) : Option Nat :=
  (zeros.find? fun z => z ≤ c.toNat && c.toNat < z + 10).map (c.toNat - ·)

def isMargin (c : Char) : Bool := isBlank c && !(0x1C ≤ c.toNat && c.toNat ≤ 0x1F)

/-- The values of digits between which single underscores may stand. -/
def digitValues? : Text → Option (List Nat)
  | [] => none
  | [c] => (decimalValue? c).map fun d => [d]
  | c :: '_' :: r => match decimalValue? c, digitValues? r with
    | some d, some ds => some (d :: ds)
    | _, _ => none
  | c :: r => match decimalValue? c, digitValues? r with
    | some d, some ds => some (d :: ds)
    | _, _ => none

/-- A numeral of too many digits is not read. -/
def natural? (t : Text) : Option Nat :=
  match digitValues? t with
  | none => none
  | some ds => if maxLength < ds.length then none else some (ds.foldl (fun n d => 10 * n + d) 0)

def integer? (t : Text) : Option Int :=
  match ((t.dropWhile isMargin).reverse.dropWhile isMargin).reverse with
  | '-' :: r => (natural? r).map fun n => -(n : Int)
  | '+' :: r => (natural? r).map fun n => (n : Int)
  | r => (natural? r).map fun n => (n : Int)

end PairGrammar.Numeral
