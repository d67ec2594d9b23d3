import PairGrammar.Config.Toml
import PairGrammar.Binary64.Shortest

/-!
# Configuration

Default values for the options of commands are written in configuration texts. A text gives, under
`defaults`, for a command one table from options to plain values; the command `default` stands for
all commands. Texts come in an order: one that is given, the file of the working folder, the file of
the home folder, and a bundled one, of which only the last has to be there. Where two of them give a
value to the same option of the same command, the earlier one holds. Every text has to have the
right form, also one whose values are not used.

The main statement, `value?_give`, says what a value that is added changes.
-/

namespace PairGrammar

/-- A plain value. -/
inductive Scalar
  | text (s : String)
  | integer (n : Int)
  | float (x : Binary64)
  | boolean (b : Bool)
  deriving DecidableEq, Repr

namespace Scalar

def ofToml? : Toml → Option Scalar
  | .text t => some (text t.string)
  | .integer n => some (integer n)
  | .float x => some (float x)
  | .boolean b => some (boolean b)
  | _ => none

/-- The value as it is shown within other text. -/
def string : Scalar → String
  | text s => s
  | integer n => toString n
  | float x => x.text.string
  | boolean b => if b then "True" else "False"

/-- Whether the value counts as a yes: all but the empty text and zero do. -/
def isTrue : Scalar → Bool
  | text s => s ≠ ""
  | integer n => n ≠ 0
  | float x => x.magnitude ≠ 0
  | boolean b => b

end Scalar

inductive ConfigError
  | notToml (message : String)
  | wrongForm
  | breakdown (message : String)
  deriving DecidableEq, Repr

namespace ConfigError

def message : ConfigError → String
  | notToml message => s!"Invalid TOML ({message})"
  | wrongForm =>
    "Unexpected .iskierkarc format: defaults should be a non-nested array of tables"
  | breakdown message => message

def ofTrouble : Toml.Trouble → ConfigError
  | .malformed message => notToml message
  | .breakdown message => breakdown message

end ConfigError

/-- The values of options. -/
abbrev Options := List (String × Scalar)

/-- The options of commands, each command once. -/
abbrev Config := List (String × Options)

namespace Config

/-! ### Reading one text -/

def options? (fs : Toml.Fields) : Option Options :=
  fs.mapM fun (k, v) => (Scalar.ofToml? v).map fun s => (k.string, s)

/-- A command has an array of exactly one table. -/
def command? : Text × Toml → Option (String × Options)
  | (k, .list [.table fs _]) => (options? fs).map fun os => (k.string, os)
  | _ => none

def defaultsKey : Text := ['d', 'e', 'f', 'a', 'u', 'l', 't', 's']

def ofToml? (fs : Toml.Fields) : Option Config :=
  match fs.lookup defaultsKey with
  | none => some []
  | some (.table commands _) => commands.mapM command?
  | some _ => none

/-! ### Looking up -/

def value? (c : Config) (command option : String) : Option Scalar :=
  (c.lookup command).bind (·.lookup option)

/-- The value for a command, or the one for all commands. -/
def default? (c : Config) (command option : String) : Option Scalar :=
  (c.value? command option).or (c.value? "default" option)

/-! ### Joining texts -/

/-- Adds a value unless there is one already. -/
def give (command option : String) (v : Scalar) : Config → Config
  | [] => [(command, [(option, v)])]
  | (k, os) :: c =>
    if k = command then (k, if (os.lookup option).isSome then os else os ++ [(option, v)]) :: c
    else (k, os) :: give command option v c

theorem lookup_cons_of_ne {α : Type} {k l : String} (h : k ≠ l) (a : α)
    (c : List (String × α)) : ((l, a) :: c).lookup k = c.lookup k := by
  rw [List.lookup_cons, beq_false_of_ne h]

/-- A value that is given is found unless there was one before, and all others are as they were. -/
theorem value?_give (command option : String) (v : Scalar) (c : Config) (k o : String) :
    (give command option v c).value? k o =
      (c.value? k o).or (if k = command ∧ o = option then some v else none) := by
  unfold value?
  induction c with
  | nil =>
    by_cases hk : k = command
    · by_cases ho : o = option
      · simp [give, hk, ho]
      · simp [give, hk, ho, lookup_cons_of_ne]
    · simp [give, hk, lookup_cons_of_ne]
  | cons e c ih =>
    obtain ⟨l, os⟩ := e
    rw [give]
    split
    · next hl =>
      subst hl
      by_cases hk : k = l
      · subst hk
        by_cases ho : o = option
        · cases hs : os.lookup option <;> simp [ho, hs, List.lookup_append]
        · cases hs : os.lookup option <;> simp [ho, List.lookup_append, lookup_cons_of_ne]
      · simp [hk, lookup_cons_of_ne]
    · next hl =>
      by_cases hk : k = l
      · simp [hk, hl]
      · simpa [hk, lookup_cons_of_ne] using ih

/-- Adds all values of a later text. -/
def join (c later : Config) : Config :=
  later.foldl (fun c (command, os) => os.foldl (fun c (o, v) => give command o v c) c) c

/-- The configuration of documents in their order, all of which have to be of the right form. -/
def ofTables (tables : List Toml.Fields) : Except ConfigError Config :=
  match tables.mapM ofToml? with
  | none => .error .wrongForm
  | some configs => .ok (configs.foldl join [])

/-- The configuration of texts in their order: all have to be TOML, then all have to be of the
right form. -/
def ofTexts (decode : Toml.Decoder) (ts : List Text) : Except ConfigError Config :=
  match ts.mapM decode with
  | .error e => .error (.ofTrouble e)
  | .ok tables => ofTables tables

end Config

/-- The texts that a configuration is read from, as far as they are there. -/
structure ConfigTexts where
  given : Option Text := none
  here : Option Text := none
  home : Option Text := none

/-- The texts in the order in which they hold, and a bundled one behind them. -/
def ConfigTexts.inOrder (ts : ConfigTexts) (bundled : Text) : List Text :=
  ts.given.toList ++ ts.here.toList ++ ts.home.toList ++ [bundled]

end PairGrammar
