import PairGrammar.LoadError
import PairGrammar.Text.Lines

/-!
# Sources of rules

A source has a name and is read as often as its lines are needed. What it holds may change between
two readings, so it is a list of readings: each is used once, and the last one stays. A reading is
lines, or what kept them from being read.
-/

namespace PairGrammar

abbrev Reading := Except Failure (List Text)

structure Source where
  name : String
  now : Reading
  later : List Reading := []

namespace Source

/-- What the source holds now, and the source for the next reading. -/
def read (s : Source) : Reading × Source :=
  match s.later with
  | [] => (s.now, s)
  | r :: rs => (s.now, { s with now := r, later := rs })

/-- Rules that are given as a text. -/
def ofText (t : Text) (name : String := "<string>") : Source := ⟨name, .ok t.lines, []⟩

/-- A text that changes from reading to reading. -/
def ofTexts (name : String) : List Text → Source
  | [] => ofText [] name
  | t :: ts => ⟨name, .ok t.lines, ts.map fun u => .ok u.lines⟩

end Source

end PairGrammar
