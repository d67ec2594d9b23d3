import PairGrammar.Production

/-!
# Pairs, and how values take the place of references

What is generated is a pair of texts, one in natural language and one of code. A line is joined
from its pieces: a literal stands for itself and a reference for the value of its variable. An
empty value takes one neighbouring blank with it: the last character before it if that is a
blank, otherwise the first character of the literal that follows directly if that is one. So an
optional word does not leave two spaces behind.

A reference without a value stops the join; `join_isOk` says that nothing else does.
-/

namespace PairGrammar

structure Pair where
  natural : Text
  code : Text
  deriving DecidableEq, Repr

def endsBlank (t : Text) : Bool := t.getLast?.any isBlank

/-- The text without its first character if that is a blank. -/
def dropBlank : Text → Text
  | [] => []
  | c :: r => if isBlank c then r else c :: r

/-- Appends pieces to the text `done`; `owed` says that a blank may still be dropped. -/
def joinOnto (value : Name → Option Text) : (done : Text) → (owed : Bool) → List Piece →
    Except Name Text
  | done, _, [] => .ok done
  | done, owed, .literal t :: ps =>
    joinOnto value (done ++ if owed then dropBlank t else t) false ps
  | done, _, .reference n :: ps => match value n with
    | none => .error n
    | some [] =>
      if endsBlank done then joinOnto value done.dropLast false ps else joinOnto value done true ps
    | some (c :: r) => joinOnto value (done ++ c :: r) false ps

def join (value : Name → Option Text) (ps : List Piece) : Except Name Text :=
  joinOnto value [] false ps

/-- The two lines of a production, the natural one first. -/
def Production.render (p : Production) (value : Name → Option Pair) : Except Name Pair :=
  match join (fun n => (value n).map Pair.natural) p.natural with
  | .error n => .error n
  | .ok natural => match join (fun n => (value n).map Pair.code) p.code with
    | .error n => .error n
    | .ok code => .ok ⟨natural, code⟩

theorem joinOnto_isOk {value : Name → Option Text} {ps : List Piece}
    (h : ∀ p ∈ ps, ∀ n, p = .reference n → (value n).isSome) (done : Text) (owed : Bool) :
    ∃ t, joinOnto value done owed ps = .ok t := by
  fun_induction joinOnto value done owed ps with
  | case1 => exact ⟨_, rfl⟩
  | case2 done owed t ps ih => exact ih fun p hp => h p (List.mem_cons_of_mem _ hp)
  | case3 done owed n ps hn => simpa [hn] using h _ List.mem_cons_self n rfl
  | case4 done owed n ps hn hb ih => exact ih fun p hp => h p (List.mem_cons_of_mem _ hp)
  | case5 done owed n ps hn hb ih => exact ih fun p hp => h p (List.mem_cons_of_mem _ hp)
  | case6 done owed n ps c r hn ih => exact ih fun p hp => h p (List.mem_cons_of_mem _ hp)

theorem join_isOk {value : Name → Option Text} {ps : List Piece}
    (h : ∀ p ∈ ps, ∀ n, p = .reference n → (value n).isSome) : ∃ t, join value ps = .ok t :=
  joinOnto_isOk h [] false

theorem Production.mem_references {p : Production} {n : Name} :
    n ∈ p.references ↔ .reference n ∈ p.natural ∨ .reference n ∈ p.code := by
  have hn (q : Piece) : q.name? = some n ↔ q = .reference n := by
    cases q <;> simp [Piece.name?]
  simp [references, hn]

/-- A production can be rendered as soon as each of its references has a value. -/
theorem Production.render_isOk {p : Production} {value : Name → Option Pair}
    (h : ∀ n ∈ p.references, (value n).isSome) : ∃ pair, p.render value = .ok pair := by
  have isSome_line {f : Pair → Text} {n : Name} (hn : n ∈ p.references) :
      ((value n).map f).isSome := by simpa using h n hn
  obtain ⟨natural, hnat⟩ : ∃ t, join (fun n => (value n).map Pair.natural) p.natural = .ok t :=
    join_isOk fun q hq n hqn => isSome_line (mem_references.2 (.inl (hqn ▸ hq)))
  obtain ⟨code, hcode⟩ : ∃ t, join (fun n => (value n).map Pair.code) p.code = .ok t :=
    join_isOk fun q hq n hqn => isSome_line (mem_references.2 (.inr (hqn ▸ hq)))
  exact ⟨⟨natural, code⟩, by simp only [render, hnat, hcode]⟩

end PairGrammar
