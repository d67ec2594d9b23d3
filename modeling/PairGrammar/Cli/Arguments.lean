import PairGrammar.Numeral.Integer
import PairGrammar.Text.Shown

/-!
# Command line arguments

Arguments are options, with the values that belong to them, and at most one operand in any place
between them. Every option has a short and a long name, possibly one of them only. A long name may
be cut short as long as it stays clear, a value stands behind the name or is joined to it, with an
equals sign or, behind a short name, without one, and short options without a value may be joined
to the next one. A double dash that is joined as a value blanks the option out. Negative numbers are
no options, and behind a double dash nothing is.

Arguments are first marked as options and others, then read from left to right. What nobody takes
is left over.
-/

namespace PairGrammar.Cli

/-- What belongs to an option: nothing, or a value of some kind. -/
inductive OptionKind
  | switch
  | help
  | text
  | integer
  | choice (values : List String)
  deriving DecidableEq, Repr

structure OptionSpec where
  names : List String
  kind : OptionKind
  deriving DecidableEq, Repr

/-- The operand: none, one argument of a name, or all that follows. -/
inductive Operand
  | none
  | single (name : String)
  | rest
  deriving DecidableEq, Repr

structure Usage where
  options : List OptionSpec
  operand : Operand

inductive Value
  | on
  | text (s : String)
  | integer (n : Int)
  | blank
  deriving DecidableEq, Repr

inductive ArgumentError
  | ambiguous (argument : String) (names : List String)
  | valueMissing (option : OptionSpec)
  | valueIgnored (option : OptionSpec) (value : String)
  | notInteger (option : OptionSpec) (value : String)
  | notChoice (option : OptionSpec) (value : String) (values : List String)
  | operandMissing (name : String)
  | unknownCommand (name : String) (names : List String)
  | leftOver (arguments : List String)
  deriving DecidableEq, Repr

namespace ArgumentError

def shownAll (xs : List String) : String := ", ".intercalate (xs.map Text.showString)

def about (o : OptionSpec) (message : String) : String :=
  "argument " ++ "/".intercalate o.names ++ ": " ++ message

def message : ArgumentError → String
  | ambiguous a names => s!"ambiguous option: {a} could match " ++ ", ".intercalate names
  | valueMissing o => about o "expected one argument"
  | valueIgnored o v => about o s!"ignored explicit argument {Text.showString v}"
  | notInteger o v => about o s!"invalid int value: {Text.showString v}"
  | notChoice o v vs =>
    about o s!"invalid choice: {Text.showString v} (choose from {shownAll vs})"
  | operandMissing name => s!"the following arguments are required: {name}"
  | unknownCommand n ns =>
    s!"argument command: invalid choice: {Text.showString n} (choose from {shownAll ns})"
  | leftOver as => "unrecognized arguments: " ++ " ".intercalate as

end ArgumentError

/-! ### Marking -/

/-- What an argument is taken for. A known option comes with the name that it was found under, and
with the characters that are joined to it. -/
inductive Mark
  | operand
  | dashes
  | unknown
  | option (o : OptionSpec) (name : String) (joined : Option Text)

namespace Usage

def named? (u : Usage) (name : String) : Option OptionSpec :=
  u.options.find? (·.names.contains name)

/-- Every name with its option. -/
def allNames (u : Usage) : List (String × OptionSpec) :=
  u.options.flatMap fun o => o.names.map fun n => (n, o)

end Usage

/-- What is in front of the first equals sign, and the value behind it. -/
def splitValue (a : String) : String × Option Text :=
  match a.toList.span (· ≠ '=') with
  | (n, _ :: v) => (String.ofList n, some v)
  | (_, []) => (a, none)

def isNegativeNumber (a : String) : Bool :=
  let digits := fun (t : Text) => t.all fun c => (Numeral.decimalValue? c).isSome
  let body := fun (t : Text) => match t.span (· ≠ '.') with
    | (w, []) => w ≠ [] && digits w
    | (w, _ :: p) => digits w && p ≠ [] && digits p
  match a.toList with
  | '-' :: r => body r || (r.getLast? = some '\n' && body r.dropLast)
  | _ => false

/-- The options that an argument may mean, each with its name and what is joined to it. -/
def Usage.meant (u : Usage) (a : String) : List (OptionSpec × String × Option Text) :=
  if a.startsWith "--" then
    match splitValue a with
    | (start, v) => u.allNames.filterMap fun (n, o) =>
      if n.startsWith start then some (o, n, v) else none
  else
    u.allNames.filterMap fun (n, o) =>
      if n = String.ofList (a.toList.take 2) then some (o, n, some (a.toList.drop 2))
      else if n.startsWith a then some (o, n, none)
      else none

def Usage.mark (u : Usage) (a : String) : Except ArgumentError Mark :=
  if !a.startsWith "-" ∨ a = "-" then .ok .operand
  else match u.named? a, splitValue a with
    | some o, _ => .ok (.option o a none)
    | none, (n, v) => match v, u.named? n with
      | some _, some o => .ok (.option o n v)
      | _, _ => match u.meant a with
        | [(o, n, v)] => .ok (.option o n v)
        | [] => .ok (if isNegativeNumber a ∨ a.contains ' ' then .operand else .unknown)
        | several => .error (.ambiguous a (several.map fun m => m.2.1))

def Usage.markAll (u : Usage) : List String → Except ArgumentError (List (String × Mark))
  | [] => .ok []
  | a :: as =>
    if a = "--" then .ok ((a, .dashes) :: as.map fun b => (b, .operand))
    else match u.mark a with
      | .error e => .error e
      | .ok m => match u.markAll as with
        | .error e => .error e
        | .ok ms => .ok ((a, m) :: ms)

/-! ### Reading -/

/-- What has been read: the values of options, the latest first, the operand, and what is left. -/
structure Reading where
  values : List (OptionSpec × Value) := []
  operand : Option (List String) := none
  left : List String := []
  helpWanted : Bool := false

namespace Reading

def value? (r : Reading) (name : String) : Option Value :=
  (r.values.find? (·.1.names.contains name)).map Prod.snd

def convert (o : OptionSpec) (v : String) : Except ArgumentError Value :=
  if v = "--" then .ok .blank
  else match o.kind with
  | .switch => .ok .on
  | .help => .ok .on
  | .text => .ok (.text v)
  | .integer => match Numeral.integer? v.toList with
    | none => .error (.notInteger o v)
    | some n => .ok (.integer n)
  | .choice vs => if vs.contains v then .ok (.text v) else .error (.notChoice o v vs)

def takesValue (o : OptionSpec) : Bool :=
  match o.kind with
  | .switch => false
  | .help => false
  | _ => true

def set (r : Reading) (o : OptionSpec) (v : Value) : Reading :=
  { r with values := (o, v) :: r.values, helpWanted := r.helpWanted || o.kind = .help }

def leave (r : Reading) (a : String) : Reading := { r with left := r.left ++ [a] }

/-- Reads an option to which characters are joined. They are its value or, behind a short option
without a value, more short options. The option that is given back is still to be read, with the
next argument. -/
def readJoined (u : Usage) : (o : OptionSpec) → (isShort : Bool) → Text → Reading →
    Except ArgumentError (Reading × Option OptionSpec)
  | o, isShort, v, r =>
    if takesValue o then match convert o (String.ofList v) with
      | .error e => .error e
      | .ok x => .ok (r.set o x, none)
    else match v with
      | [] => .error (.valueIgnored o "")
      | c :: rest =>
        let next := if isShort then u.named? (String.ofList ['-', c]) else none
        match next, rest with
        | none, _ => .error (.valueIgnored o (String.ofList v))
        | some o', [] => .ok (r.set o .on, some o')
        | some o', d :: w => readJoined u o' true (d :: w) (r.set o .on)
termination_by _ _ v => v.length

/-- Reads an option as far as one argument goes. -/
def readName (u : Usage) (o : OptionSpec) (name : String) (joined : Option Text) (r : Reading) :
    Except ArgumentError (Reading × Option OptionSpec) :=
  match joined with
  | none => .ok (r, some o)
  | some v => readJoined u o (!name.startsWith "--") v r

/-- Reads an option whose value, if it takes one, is the next argument. -/
def readApart (o : OptionSpec) (r : Reading) (rest : List (String × Mark)) :
    Except ArgumentError (Reading × List (String × Mark)) :=
  if takesValue o then match rest with
    | (a, .operand) :: rest => match convert o a with
      | .error e => .error e
      | .ok x => .ok (r.set o x, rest)
    | _ => .error (.valueMissing o)
  else .ok (r.set o .on, rest)

theorem length_readApart_le {o : OptionSpec} {r r' : Reading} {rest rest' : List (String × Mark)}
    (h : readApart o r rest = .ok (r', rest')) : rest'.length ≤ rest.length := by
  unfold readApart at h
  split at h
  · split at h
    · split at h
      · cases h
      · cases h
        exact Nat.le_succ _
    · cases h
  · cases h
    exact Nat.le_refl _

/-- The operand at the front of marked arguments, where there is one to be taken, and what is
behind it. -/
def takeOperand (u : Usage) : List (String × Mark) → Option (List String × List (String × Mark))
  | (a, .operand) :: rest => match u.operand with
    | .none => none
    | .single _ => some ([a], match rest with
      | (_, .dashes) :: rest => rest
      | rest => rest)
    | .rest => some (a :: rest.map Prod.fst, [])
  | (d, .dashes) :: (a, .operand) :: rest => match u.operand with
    | .none => none
    | .single _ => some ([a], rest)
    | .rest => some (d :: a :: rest.map Prod.fst, [])
  | _ => none

theorem length_takeOperand_lt {u : Usage} {xs rest : List (String × Mark)} {o : List String}
    (h : takeOperand u xs = some (o, rest)) : rest.length < xs.length := by
  unfold takeOperand at h
  split at h
  · split at h
    · cases h
    · cases h
      split
      · simp only [List.length_cons]
        omega
      · exact Nat.lt_succ_self _
    · cases h
      exact Nat.zero_lt_succ _
  · split at h
    · cases h
    · cases h
      simp only [List.length_cons]
      omega
    · cases h
      exact Nat.zero_lt_succ _
  · cases h

/-- Reads marked arguments up to their end, or up to a wish for help. -/
def readMarked (u : Usage) (r : Reading) (xs : List (String × Mark)) :
    Except ArgumentError Reading :=
  if r.helpWanted then .ok r
  else match xs with
  | [] => .ok r
  | (a, .unknown) :: rest => readMarked u (r.leave a) rest
  | (_, .option o name joined) :: rest => match readName u o name joined r with
    | .error e => .error e
    | .ok (r', none) => readMarked u r' rest
    | .ok (r', some o') => match _h : readApart o' r' rest with
      | .error e => .error e
      | .ok (r', rest') => readMarked u r' rest'
  | (a, m) :: rest =>
    if r.operand.isSome then readMarked u (r.leave a) rest
    else match _h : takeOperand u ((a, m) :: rest) with
      | none => readMarked u (r.leave a) rest
      | some (o, rest') => readMarked u { r with operand := some o } rest'
termination_by xs.length
decreasing_by
  · exact Nat.lt_succ_self _
  · exact Nat.lt_succ_self _
  · exact Nat.lt_succ_of_le (length_readApart_le _h)
  · exact Nat.lt_succ_self _
  · exact Nat.lt_succ_self _
  · exact length_takeOperand_lt _h

end Reading

/-- Reads arguments as far as the usage goes. -/
def Usage.read (u : Usage) (args : List String) : Except ArgumentError Reading :=
  match u.markAll args with
  | .error e => .error e
  | .ok ms => Reading.readMarked u {} ms

end PairGrammar.Cli
