/-!
# Nesting depth

The depth of an evaluation is the number of evaluations around the present one, together with the
limit that it has to stay below. Going one deeper always counts, even where the limit is met; only
what lies at a positive depth can be left.
-/

namespace PairGrammar

structure Depth where
  limit : Int := 2048
  level : Nat := 0
  deriving DecidableEq, Repr

namespace Depth

/-- One level deeper. -/
def enter (d : Depth) : Depth := { d with level := d.level + 1 }

def isBelowLimit (d : Depth) : Bool := d.level < d.limit

/-- One level up, unless there is none. -/
def leave? (d : Depth) : Option Depth :=
  match d.level with
  | 0 => none
  | l + 1 => some { d with level := l }

/-- How many levels there are up to the limit. -/
def room (d : Depth) : Nat := (d.limit - d.level).toNat

@[simp] theorem leave?_enter (d : Depth) : d.enter.leave? = some d := rfl

theorem room_enter_succ {d : Depth} (h : d.enter.isBelowLimit) : d.enter.room + 1 = d.room := by
  have : ((d.level + 1 : Nat) : Int) < d.limit := of_decide_eq_true h
  simp only [room, enter]
  omega

theorem room_leave?_le {d e : Depth} (h : d.leave? = some e) : e.room ≤ d.room + 1 := by
  unfold leave? at h
  split at h
  · cases h
  · next l hl =>
    cases h
    simp only [room, hl]
    omega

end Depth

end PairGrammar
