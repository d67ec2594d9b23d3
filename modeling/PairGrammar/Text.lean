/-!
# Text: characters, blanks, trimming and words

Rule files are read character by character, so a text is a list of characters. A blank is one of
the twenty-nine characters that separate words: the ASCII controls from tab to carriage return, the
four information separators, the space, and the spaces and line separators of Unicode. The zero
width space, the word joiner and the byte order mark are no blanks.

Trimming removes blanks at one end; the words of a text are its maximal runs without a blank.

A character is a scalar value of Unicode. A string may elsewhere hold the lone half of a surrogate
pair as well; such strings are no texts, and nothing here is said of them.
-/

namespace PairGrammar

abbrev Text := List Char

/-! ### Blanks -/

/-- First and last code point of each run of blanks. -/
def blankRanges : List (Nat × Nat) :=
  [(0x09, 0x0D), (0x1C, 0x20), (0x85, 0x85), (0xA0, 0xA0), (0x1680, 0x1680), (0x2000, 0x200A),
   (0x2028, 0x2029), (0x202F, 0x202F), (0x205F, 0x205F), (0x3000, 0x3000)]

def isBlank (c : Char) : Bool :=
  blankRanges.any fun r => r.1 ≤ c.toNat && c.toNat ≤ r.2

/-- Every blank of ASCII in the sense of the standard library is a blank. -/
theorem isBlank_of_isWhitespace {c : Char} (h : c.isWhitespace) : isBlank c := by
  simp only [Char.isWhitespace, Bool.or_eq_true, decide_eq_true_eq] at h
  rcases h with ((rfl | rfl) | rfl) | rfl <;> decide

/-! ### Trimming and words -/

namespace Text

def string (t : Text) : String := String.ofList t

def trimLeft (t : Text) : Text := t.dropWhile isBlank

def trimRight (t : Text) : Text := (t.reverse.dropWhile isBlank).reverse

/-- The order of texts by their characters, in which a text comes before what continues it. -/
def isUpTo : Text → Text → Bool
  | [], _ => true
  | _ :: _, [] => false
  | c :: s, d :: t => c.toNat < d.toNat || (c = d && isUpTo s t)

/-- The maximal runs without a blank, in order. A character joins the word that starts right
behind it. -/
def words : Text → List Text
  | [] => []
  | c :: r =>
    if isBlank c then words r
    else match r.head?, words r with
      | some d, w :: ws => if isBlank d then [c] :: w :: ws else (c :: w) :: ws
      | _, ws => [c] :: ws

@[simp] theorem trimLeft_nil : trimLeft [] = [] := rfl

@[simp] theorem trimRight_nil : trimRight [] = [] := rfl

/-- Nothing but blanks is removed on the left, and what is left does not start with one. -/
theorem head_trimLeft_not_blank {t : Text} {c : Char} {r : Text} (h : t.trimLeft = c :: r) :
    isBlank c = false := by
  induction t with
  | nil => simp at h
  | cons d s ih =>
    cases hd : isBlank d <;> simp_all [trimLeft]

theorem trimLeft_trimLeft (t : Text) : t.trimLeft.trimLeft = t.trimLeft := by
  cases h : t.trimLeft with
  | nil => rfl
  | cons c r => simp [trimLeft, head_trimLeft_not_blank h]

theorem trimRight_trimRight (t : Text) : t.trimRight.trimRight = t.trimRight := by
  simpa [trimRight, trimLeft] using congrArg List.reverse (trimLeft_trimLeft t.reverse)

end Text

end PairGrammar
