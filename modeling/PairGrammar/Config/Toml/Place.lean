import PairGrammar.Config.Toml
import PairGrammar.Text.Split

/-!
# Places in documents

A decoder for the program itself starts here. A place in a value is reached by keys of tables and by
going to the last item of a list.

A document is refused if it is malformed. A few documents make the decoder break down instead, where
it looks for something that the text or the values read so far do not have.

The main statement, `get?_put`, says what a field that is put into a table changes.
-/

namespace PairGrammar.Toml

/-- What kind of value stands where another kind is needed. -/
inductive Kind
  | text
  | integer
  | float
  | boolean
  | date
  | dateTime
  | time
  | list
  | table
  | inlineTable
  deriving DecidableEq, Repr

namespace Kind

def name : Kind → String
  | text => "a text"
  | integer => "an integer"
  | float => "a floating-point number"
  | boolean => "a truth value"
  | date => "a date"
  | dateTime => "a date with a time"
  | time => "a time"
  | list => "a list"
  | table => "a table"
  | inlineTable => "an inline table"

/-- Moments with a date are alike as items of a list. -/
def isAlike (k l : Kind) : Bool :=
  k = l || (k = date && l = dateTime) || (k = dateTime && l = date)

end Kind

def kind : Toml → Kind
  | text _ => .text
  | integer _ => .integer
  | float _ => .float
  | boolean _ => .boolean
  | moment .date => .date
  | moment .dateTime => .dateTime
  | moment .time => .time
  | list _ => .list
  | table _ isInline => if isInline then .inlineTable else .table

/-- What the decoder does not find when it breaks down. -/
inductive Breakdown
  | textEnds
  | listEnds
  | notSearchable (k : Kind)
  | notDivisible (k : Kind)
  | notNamed (k : Kind)
  | notChangeable
  | notGrowing (k : Kind)
  | valueMissing
  | codePointTooBig
  | fractionTooLong
  deriving DecidableEq, Repr

namespace Breakdown

def message : Breakdown → String
  | textEnds => "a text ends too early"
  | listEnds => "a list ends too early"
  | notSearchable k => s!"nothing can be looked for in {k.name}"
  | notDivisible k => s!"{k.name} has no last part"
  | notNamed k => s!"{k.name} has no named parts"
  | notChangeable => "a text takes no value in"
  | notGrowing k => s!"nothing can be added to {k.name}"
  | valueMissing => "a value is missing"
  | codePointTooBig => "a code point is too big"
  | fractionTooLong => "the fraction of a second is too long"

end Breakdown

/-- Why the decoder gives no table. -/
inductive Refusal
  | malformed
  | breakdown (b : Breakdown)
  deriving DecidableEq, Repr

namespace Refusal

def malformedText : String := "malformed document"

def trouble : Refusal → Trouble
  | malformed => .malformed malformedText
  | breakdown b => .breakdown b.message

end Refusal

abbrev Result := Except Refusal

def refuse {α : Type} : Result α := .error .malformed

def breakDown {α : Type} (b : Breakdown) : Result α := .error (.breakdown b)

/-! ### Places -/

inductive Step
  | key (k : Text)
  | last
  deriving DecidableEq, Repr

abbrev Place := List Step

/-- The last part of a list or of a text. -/
def last? : Toml → Option Toml
  | list items => items.getLast?
  | text t => t.getLast?.map fun c => text [c]
  | _ => none

def get? : Place → Toml → Option Toml
  | [], v => some v
  | .key k :: p, table fs _ => (fs.lookup k).bind (get? p)
  | .last :: p, v => v.last?.bind (get? p)
  | .key _ :: _, _ => none

/-- Changes what stands at a place, if there is anything. -/
def modify (f : Toml → Toml) : Place → Toml → Toml
  | [], v => f v
  | .key k :: p, table fs isInline =>
    table (fs.map fun (l, w) => if l = k then (l, modify f p w) else (l, w)) isInline
  | .last :: p, list items => match items.getLast? with
    | none => list items
    | some w => list (items.dropLast ++ [modify f p w])
  | _, v => v

/-- Gives a table a field, in place of the one with the same key. -/
def put (k : Text) (w : Toml) : Toml → Toml
  | table fs isInline =>
    if (fs.lookup k).isSome then table (fs.map fun f => if f.1 = k then (k, w) else f) isInline
    else table (fs ++ [(k, w)]) isInline
  | v => v

theorem lookup_replace (k : Text) (w : Toml) (fs : Fields) (l : Text) :
    (fs.map fun f => if f.1 = k then (k, w) else f).lookup l =
      if l = k then (fs.lookup k).map fun _ => w else fs.lookup l := by
  induction fs with
  | nil => simp
  | cons f fs ih =>
    obtain ⟨m, v⟩ := f
    rw [List.map_cons]
    by_cases hm : m = k
    · subst hm
      by_cases hl : l = m
      · simp [hl]
      · have : (l == m) = false := beq_false_of_ne hl
        simp [List.lookup_cons, this, ih, hl]
    · have hk : (k == m) = false := beq_false_of_ne (Ne.symm hm)
      by_cases hl : l = m
      · subst hl
        simp [hm]
      · have : (l == m) = false := beq_false_of_ne hl
        simp [List.lookup_cons, this, ih, hm, hk]

/-- A field that is put is found, and all others are as they were. -/
theorem get?_put (k : Text) (w : Toml) (fs : Fields) (isInline : Bool) (l : Text) :
    (put k w (table fs isInline)).get? [.key l] =
      if l = k then some w else (table fs isInline).get? [.key l] := by
  have get?_key (gs : Fields) : (table gs isInline).get? [.key l] = gs.lookup l := by
    rw [get?]
    cases gs.lookup l <;> rfl
  rw [put]
  split
  · next h =>
    rw [get?_key, get?_key, lookup_replace]
    obtain ⟨v, hv⟩ := Option.isSome_iff_exists.1 h
    rw [hv]
    rfl
  · next h =>
    rw [get?_key, get?_key, List.lookup_append]
    have hn : fs.lookup k = none := Option.not_isSome_iff_eq_none.1 h
    by_cases hl : l = k
    · simp [hl, hn]
    · have : (l == k) = false := beq_false_of_ne hl
      simp [List.lookup_cons, this, hl]

def push (w : Toml) : Toml → Toml
  | list items => list (items ++ [w])
  | v => v

/-- The end of a list or of a text. -/
def atLast (v : Toml) : Result Toml :=
  match v, v.last? with
  | _, some w => .ok w
  | list _, none => breakDown .listEnds
  | text _, none => breakDown .textEnds
  | _, none => breakDown (.notDivisible v.kind)

/-- Whether something of a name is in a value: a field of a table, an item of a list, or a part of
a text. -/
def holds (v : Toml) (k : Text) : Result Bool :=
  match v with
  | table fs _ => .ok (fs.lookup k).isSome
  | list items => .ok <| items.any fun
    | text t => t = k
    | _ => false
  | text t => .ok (Text.places k t ≠ 0)
  | _ => breakDown (.notSearchable v.kind)

/-- Gives a field to what stands at a place, which has to be a table. -/
def assign (root : Toml) (p : Place) (k : Text) (w : Toml) : Result Toml :=
  match root.get? p with
  | some (table _ _) => .ok (root.modify (put k w) p)
  | some (text _) => breakDown .notChangeable
  | some v => breakDown (.notNamed v.kind)
  | none => refuse

/-- The place of a field that is there. -/
def enter (root : Toml) (p : Place) (k : Text) : Result Place :=
  match root.get? p with
  | some (table _ _) => .ok (p ++ [.key k])
  | some v => breakDown (.notNamed v.kind)
  | none => refuse

/-- The place of a field, which is made if nothing of its name is there. -/
def enterOrMake (root : Toml) (p : Place) (k : Text) (new : Toml) : Result (Toml × Place) := do
  let v ← (root.get? p).elim refuse Except.ok
  let root ← if ← v.holds k then pure root else root.assign p k new
  return (root, ← root.enter p k)

def emptyTable : Toml := table [] false

end PairGrammar.Toml
