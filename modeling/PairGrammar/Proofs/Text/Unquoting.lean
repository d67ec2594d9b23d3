import PairGrammar.Text.Quoted

/-!
# Quoted texts can be read back

A quoted text ends at the first quote that is not escaped, so whatever follows it, it is known where
it ends and what has been quoted. `SelfDelimiting` says this of any way of writing: what is written
first, and what is written behind it, can be told from both together. Lists can then be written
without anything between their members.

* `readQuoted_quoteChar`: a character is read back from the characters that quote it.
* `selfDelimiting_quoted`: a text is read back from its quoted form.
* `SelfDelimiting.flatMap_injective`: a list is determined by what is written for it.
-/

namespace PairGrammar

/-! ### Writing without separators -/

/-- What is written first can be told from what is written behind it. -/
def SelfDelimiting {α β : Type} (write : α → List β) : Prop :=
  ∀ (a b : α) (x y : List β), write a ++ x = write b ++ y → a = b ∧ x = y

section

variable {α β : Type} {write : α → List β}

/-- What can be read back is self-delimiting. -/
theorem SelfDelimiting.of_read {read : List β → Option (α × List β)}
    (h : ∀ a x, read (write a ++ x) = some (a, x)) : SelfDelimiting write := by
  intro a b x y hab
  have hread : some (a, x) = some (b, y) := by rw [← h a x, hab, h b y]
  exact Prod.ext_iff.1 (Option.some.inj hread)

theorem SelfDelimiting.flatMap_injective (h : SelfDelimiting write) (hne : ∀ a, write a ≠ [])
    {as bs : List α} (hab : as.flatMap write = bs.flatMap write) : as = bs := by
  induction as generalizing bs with
  | nil =>
    cases bs with
    | nil => rfl
    | cons b bs =>
      rw [List.flatMap_nil, List.flatMap_cons] at hab
      exact absurd (List.append_eq_nil_iff.1 hab.symm).1 (hne b)
  | cons a as ih =>
    cases bs with
    | nil =>
      rw [List.flatMap_nil, List.flatMap_cons] at hab
      exact absurd (List.append_eq_nil_iff.1 hab).1 (hne a)
    | cons b bs =>
      rw [List.flatMap_cons, List.flatMap_cons] at hab
      obtain ⟨rfl, hrest⟩ := h a b _ _ hab
      rw [ih hrest]

end

namespace Text

/-! ### Reading a quoted text -/

/-- The value of a digit of base sixteen. -/
def hexValue (c : Char) : Nat := if c.toNat < 97 then c.toNat - 48 else c.toNat - 87

/-- The character that a letter behind a backslash stands for. -/
def unescape (c : Char) : Char :=
  if c = 'b' then .ofNat 8 else if c = 'f' then .ofNat 12
  else if c = 'n' then '\n' else if c = 'r' then '\r' else if c = 't' then '\t' else c

def consFirst (c : Char) (p : Text × Text) : Text × Text := (c :: p.1, p.2)

/-- The text up to the first quote that is not escaped, and what follows it. -/
def readQuoted : Text → Option (Text × Text)
  | [] => none
  | '"' :: x => some ([], x)
  | '\\' :: 'u' :: '0' :: '0' :: high :: low :: x =>
    (readQuoted x).map (consFirst (.ofNat (16 * hexValue high + hexValue low)))
  | '\\' :: c :: x => (readQuoted x).map (consFirst (unescape c))
  | c :: x => (readQuoted x).map (consFirst c)

theorem hexValue_hexDigit : ∀ n, n < 32 →
    16 * hexValue (hexDigit (n / 16)) + hexValue (hexDigit (n % 16)) = n := by
  decide

theorem readQuoted_quoteChar (c : Char) (x : Text) :
    readQuoted (quoteChar c ++ x) = (readQuoted x).map (consFirst c) := by
  have hcode : ∀ n, c.toNat = n → c = .ofNat n := by
    rintro n rfl
    exact (Char.ofNat_toNat c).symm
  by_cases hquote : c = '"'
  · subst hquote
    simp [quoteChar, readQuoted, unescape]
  by_cases hbackslash : c = '\\'
  · subst hbackslash
    simp [quoteChar, readQuoted, unescape]
  by_cases hn : c = '\n'
  · subst hn
    simp [quoteChar, readQuoted, unescape]
  by_cases hr : c = '\r'
  · subst hr
    simp [quoteChar, readQuoted, unescape]
  by_cases ht : c = '\t'
  · subst ht
    simp [quoteChar, readQuoted, unescape]
  by_cases hb : c.toNat = 8
  · cases hcode 8 hb
    simp [quoteChar, readQuoted, unescape]
  by_cases hf : c.toNat = 12
  · cases hcode 12 hf
    simp [quoteChar, readQuoted, unescape]
  by_cases hcontrol : c.toNat < 32
  · simp [quoteChar, hquote, hbackslash, hn, hr, ht, hb, hf, hcontrol, readQuoted,
      hexValue_hexDigit _ hcontrol]
  · simp [quoteChar, hquote, hbackslash, hn, hr, ht, hb, hf, hcontrol, readQuoted]

theorem readQuoted_flatMap (t x : Text) :
    readQuoted (t.flatMap quoteChar ++ '"' :: x) = some (t, x) := by
  induction t with
  | nil => rw [List.flatMap_nil, List.nil_append, readQuoted]
  | cons c t ih =>
    rw [List.flatMap_cons, List.append_assoc, readQuoted_quoteChar, ih]
    rfl

/-- The text that is quoted at the start, and what follows it. -/
def unquote? : Text → Option (Text × Text)
  | '"' :: x => readQuoted x
  | _ => none

theorem unquote?_quoted (t x : Text) : unquote? (quoted t ++ x) = some (t, x) := by
  have hquoted : quoted t ++ x = '"' :: (t.flatMap quoteChar ++ '"' :: x) := by simp [quoted]
  rw [hquoted, unquote?, readQuoted_flatMap]

theorem selfDelimiting_quoted : SelfDelimiting quoted := .of_read unquote?_quoted

end Text

end PairGrammar
