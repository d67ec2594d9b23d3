import PairGrammar.Text

/-!
# Decimal numerals

A numeral of a rule file is a run of ASCII digits, leading zeros included. Its value is the number
it denotes in base ten.
-/

namespace PairGrammar.Numeral

def digitValue (c : Char) : Nat := c.toNat - '0'.toNat

/-- The number that digits denote behind the digits of `n`. -/
def valueFrom (n : Nat) (ds : Text) : Nat := ds.foldl (fun m c => 10 * m + digitValue c) n

def value (ds : Text) : Nat := valueFrom 0 ds

def isDecimal (t : Text) : Bool := t.all Char.isDigit

/-- The longest numeral that is read, in digits. -/
def maxLength : Nat := 4300

end PairGrammar.Numeral
