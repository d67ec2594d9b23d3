import PairGrammar.Text

/-!
# Names of variables

A name is an ASCII letter followed by ASCII letters and digits; letters and digits of other
scripts never occur in one. Generation starts at the variable `output` unless another root is
asked for.
-/

namespace PairGrammar

def isLetter (c : Char) : Bool := c.isAlpha

def isNameStart (c : Char) : Bool := isLetter c

def isNameChar (c : Char) : Bool := isLetter c || c.isDigit

abbrev Name := Text

namespace Name

/-- The names that a header can introduce. -/
def IsValid : Name → Prop
  | [] => False
  | c :: r => isNameStart c ∧ ∀ d ∈ r, isNameChar d

instance : DecidablePred IsValid
  | [] => isFalse id
  | c :: r => inferInstanceAs (Decidable (isNameStart c ∧ ∀ d ∈ r, isNameChar d))

def output : Name := ['o', 'u', 't', 'p', 'u', 't']

end Name

/-! ### Letters and digits are no blanks -/

theorem isNameChar_of_isLetter {c : Char} (h : isLetter c) : isNameChar c := by
  simp [isNameChar, h]

theorem toNat_of_isNameChar {c : Char} (h : isNameChar c) :
    (48 ≤ c.toNat ∧ c.toNat ≤ 57) ∨ (65 ≤ c.toNat ∧ c.toNat ≤ 90) ∨
      (97 ≤ c.toNat ∧ c.toNat ≤ 122) := by
  delta isNameChar isLetter Char.isAlpha Char.isUpper Char.isLower Char.isDigit at h
  simp only [Bool.or_eq_true, Bool.and_eq_true, decide_eq_true_eq, UInt32.le_iff_toNat_le] at h
  have upper : 'A'.val.toNat = 65 ∧ 'Z'.val.toNat = 90 := ⟨rfl, rfl⟩
  have lower : 'a'.val.toNat = 97 ∧ 'z'.val.toNat = 122 := ⟨rfl, rfl⟩
  have digit : '0'.val.toNat = 48 ∧ '9'.val.toNat = 57 := ⟨rfl, rfl⟩
  simp only [Char.toNat]
  omega

theorem isBlank_eq_false_of_isNameChar {c : Char} (h : isNameChar c) : isBlank c = false := by
  have := toNat_of_isNameChar h
  simp [isBlank, blankRanges]
  omega

end PairGrammar
