import PairGrammar.Piece.Reader
import Mathlib.Data.List.Chain

/-!
# Well-formed sequences of pieces

Which sequences of pieces are the pieces of some line, said without a reader. `WellFormed` looks at
each piece alone, at each two neighbours, and at each underscore of a literal; `Fits` says the same
of the pieces behind a character, in the form in which a line is read from left to right.

* `isPlain_iff_plain`: the underscores of literals, one at a time and from left to right.
* `wellFormed_iff_fits`: the two forms agree at the start of a line.
* `Fits.consLiteral`, `fits_reference`: pieces fit if they are put together as the reader does.
-/

namespace PairGrammar.Piece

variable {declared : Name → Bool} {before : Option Char} {c : Char} {t rest : Text} {n : Name}
  {p : Piece} {ps : List Piece}

/-! ### The conditions -/

/-- A literal has a text; the name of a reference is declared, and consists of one or more letters
and digits. -/
def IsProper (declared : Name → Bool) : Piece → Prop
  | literal t => t ≠ []
  | reference n => n ≠ [] ∧ (∀ c ∈ n, isNameChar c) ∧ declared n

/-- What may stand directly in front of what. -/
def Joins : Piece → Piece → Prop
  | literal _, literal _ => False
  | literal s, reference _ => ∀ c ∈ s.getLast?, isLetter c = false
  | reference _, literal t => ∀ c ∈ t.head?, isNameChar c = false ∧ c ≠ '_'
  | reference _, reference _ => True

/-- No underscore of a literal starts a reference where it stands in the line. -/
def IsPlain (ps : List Piece) : Prop :=
  ∀ qs s t rs, ps = qs ++ literal (s ++ '_' :: t) :: rs →
    startsReference (textAll qs ++ s).getLast? ('_' :: (t ++ textAll rs)) = false

structure WellFormed (declared : Name → Bool) (ps : List Piece) : Prop where
  proper : ∀ p ∈ ps, IsProper declared p
  joined : ps.IsChain Joins
  plain : IsPlain ps

/-- The pieces are a reading of the line. -/
structure IsReading (declared : Name → Bool) (line : Text) (ps : List Piece) : Prop where
  written : textAll ps = line
  wellFormed : WellFormed declared ps
  notDoubleHash : ¬ ['#', '#'] <+: line

/-! ### Underscores from left to right -/

/-- No character of the text starts a reference, `before` being the character in front of the text
and `rest` what follows it. -/
def Inert (before : Option Char) : Text → Text → Prop
  | [], _ => True
  | c :: t, rest => startsReference before (c :: (t ++ rest)) = false ∧ Inert (some c) t rest

/-- No character of a literal starts a reference, `before` being the character in front. -/
def Plain : Option Char → List Piece → Prop
  | _, [] => True
  | before, p :: ps =>
    (∀ t, p = literal t → Inert before t (textAll ps)) ∧ Plain (p.text.getLast?.or before) ps

theorem startsReference_of_ne (h : c ≠ '_') : startsReference before (c :: t) = false := by
  unfold startsReference
  split
  · next he => exact absurd (List.cons.inj he).1 h
  · rfl

theorem inert_iff : Inert before t rest ↔ ∀ s u, t = s ++ '_' :: u →
    startsReference (s.getLast?.or before) ('_' :: (u ++ rest)) = false := by
  induction t generalizing before with
  | nil => simp [Inert]
  | cons c t ih =>
    rw [Inert, ih]
    constructor
    · rintro ⟨hc, ht⟩ s u h
      cases s with
      | nil =>
        obtain ⟨rfl, rfl⟩ := List.cons.inj h
        exact hc
      | cons d s =>
        obtain ⟨rfl, hs⟩ := List.cons.inj h
        simpa [List.getLast?_cons] using ht s u hs
    · intro h
      refine ⟨?_, fun s u hs => ?_⟩
      · by_cases hc : c = '_'
        · subst hc
          exact h [] t rfl
        · exact startsReference_of_ne hc
      · simpa [List.getLast?_cons] using h (c :: s) u (by rw [hs, List.cons_append])

theorem plain_iff : Plain before ps ↔ ∀ qs s t rs, ps = qs ++ literal (s ++ '_' :: t) :: rs →
    startsReference ((textAll qs ++ s).getLast?.or before) ('_' :: (t ++ textAll rs)) = false := by
  induction ps generalizing before with
  | nil => simp [Plain]
  | cons p ps ih =>
    rw [Plain, ih]
    constructor
    · rintro ⟨hp, hps⟩ qs s t rs h
      cases qs with
      | nil =>
        obtain ⟨rfl, rfl⟩ := List.cons.inj h
        exact inert_iff.1 (hp _ rfl) s t rfl
      | cons q qs =>
        obtain ⟨rfl, hs⟩ := List.cons.inj h
        simpa [List.getLast?_append, Option.or_assoc] using hps qs s t rs hs
    · intro h
      refine ⟨fun t ht => inert_iff.2 fun s u hs => ?_, fun qs s t rs hs => ?_⟩
      · exact h [] s u ps (by rw [ht, hs, List.nil_append])
      · simpa [List.getLast?_append, Option.or_assoc] using
          h (p :: qs) s t rs (by rw [hs, List.cons_append])

theorem isPlain_iff_plain : IsPlain ps ↔ Plain none ps := by
  rw [plain_iff]
  simp only [Option.or_none, IsPlain]

theorem plain_reference :
    Plain before (reference n :: ps) ↔ Plain (some (n.getLast?.getD '_')) ps := by
  simp [Plain, text, List.getLast?_cons]

theorem plain_consLiteral : Plain before (consLiteral c ps) ↔
    startsReference before (c :: textAll ps) = false ∧ Plain (some c) ps := by
  unfold consLiteral
  split
  · simp [Plain, Inert, text, List.getLast?_cons, and_assoc]
  · simp [Plain, Inert, text]

theorem isProper_consLiteral (h : ∀ p ∈ ps, IsProper declared p) :
    ∀ p ∈ consLiteral c ps, IsProper declared p := by
  unfold consLiteral
  split
  · next t ps =>
    intro p hp
    rcases List.mem_cons.1 hp with rfl | hp
    · exact List.cons_ne_nil c t
    · exact h p (List.mem_cons_of_mem _ hp)
  · intro p hp
    rcases List.mem_cons.1 hp with rfl | hp
    · exact List.cons_ne_nil c []
    · exact h p hp

/-! ### Pieces behind a character -/

/-- The pieces may be what a line goes on with behind the character `before`. -/
structure Fits (declared : Name → Bool) (before : Option Char) (ps : List Piece) : Prop where
  proper : ∀ p ∈ ps, IsProper declared p
  joined : ps.IsChain Joins
  plain : Plain before ps
  entered : ∀ n, ps.head? = some (reference n) → ∀ c ∈ before, isLetter c = false

theorem wellFormed_iff_fits : WellFormed declared ps ↔ Fits declared none ps :=
  ⟨fun h => ⟨h.proper, h.joined, isPlain_iff_plain.1 h.plain, by simp⟩,
    fun h => ⟨h.proper, h.joined, isPlain_iff_plain.2 h.plain⟩⟩

namespace Fits

theorem nil : Fits declared before [] := ⟨by simp, .nil, trivial, by simp⟩

/-- Behind a letter no reference starts, behind any other character one may start. -/
theorem of_reference {b : Option Char} (h : Fits declared b (reference n :: ps))
    (hb : ∀ c ∈ before, isLetter c = false) : Fits declared before (reference n :: ps) :=
  ⟨h.proper, h.joined, plain_reference.2 (plain_reference.1 h.plain), fun _ _ => hb⟩

theorem consLiteral (h : Fits declared (some c) ps)
    (hc : startsReference before (c :: textAll ps) = false) :
    Fits declared before (consLiteral c ps) := by
  refine ⟨isProper_consLiteral h.proper, ?_, plain_consLiteral.2 ⟨hc, h.plain⟩, ?_⟩
  · match ps, h with
    | [], _ => exact .singleton _
    | reference n :: ps, h =>
      exact .cons_cons (by simpa [Joins] using h.entered n rfl c rfl) h.joined
    | [literal t], _ => exact .singleton _
    | literal t :: literal u :: ps, h => exact (List.isChain_cons_cons.1 h.joined).1.elim
    | literal t :: reference n :: ps, h =>
      obtain ⟨ht, hps⟩ := List.isChain_cons_cons.1 h.joined
      refine .cons_cons (fun d hd => ht d ?_) hps
      obtain ⟨e, r, rfl⟩ := List.exists_cons_of_ne_nil (h.proper (literal t) List.mem_cons_self)
      simpa [List.getLast?_cons] using hd
  · intro n hn
    unfold Piece.consLiteral at hn
    split at hn <;> cases hn

/-- A literal taken off: what follows it fits behind its last character, and is no literal. -/
theorem of_literal (h : Fits declared before (literal t :: ps)) :
    t ≠ [] ∧ Inert before t (textAll ps) ∧ Fits declared t.getLast? ps ∧
      ∀ u, ps.head? ≠ some (literal u) := by
  have ht : t ≠ [] := h.proper (literal t) List.mem_cons_self
  obtain ⟨hj, hps⟩ := List.isChain_cons.1 h.joined
  refine ⟨ht, h.plain.1 t rfl, ⟨fun p hp => h.proper p (List.mem_cons_of_mem _ hp), hps, ?_,
    fun n hn => hj (reference n) hn⟩, fun u hu => hj (literal u) hu⟩
  have hlast : t.getLast?.or before = t.getLast? := by
    rw [List.getLast?_eq_some_getLast ht, Option.some_or]
  rw [← hlast]
  exact h.plain.2

end Fits

/-- Behind a name it does not matter which character the name ends with. -/
theorem plain_iff_of_joins {b : Option Char} (hps : ∀ p ∈ ps, IsProper declared p)
    (hj : ∀ p ∈ ps.head?, Joins (reference n) p) : Plain b ps ↔ Plain before ps := by
  match ps with
  | [] => exact Iff.rfl
  | reference m :: ps => rw [plain_reference, plain_reference]
  | literal t :: ps =>
    obtain ⟨c, u, rfl⟩ := List.exists_cons_of_ne_nil (hps (literal t) List.mem_cons_self)
    have hc : c ≠ '_' := (hj (literal (c :: u)) rfl c rfl).2
    simp [Plain, Inert, text, startsReference_of_ne hc, List.getLast?_cons]

theorem fits_reference : Fits declared none (reference n :: ps) ↔
    IsProper declared (reference n) ∧ (∀ p ∈ ps.head?, Joins (reference n) p) ∧
      Fits declared none ps := by
  constructor
  · intro h
    obtain ⟨hj, hps⟩ := List.isChain_cons.1 h.joined
    have hp : ∀ p ∈ ps, IsProper declared p := fun p hp => h.proper p (List.mem_cons_of_mem _ hp)
    exact ⟨h.proper _ List.mem_cons_self, hj, hp, hps,
      (plain_iff_of_joins hp hj).1 (plain_reference.1 h.plain), by simp⟩
  · rintro ⟨hn, hj, h⟩
    refine ⟨?_, List.isChain_cons.2 ⟨hj, h.joined⟩,
      plain_reference.2 ((plain_iff_of_joins h.proper hj).1 h.plain), by simp⟩
    intro p hp
    rcases List.mem_cons.1 hp with rfl | hp
    · exact hn
    · exact h.proper p hp

end PairGrammar.Piece
