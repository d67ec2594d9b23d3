import PairGrammar.Files.Trouble

/-!
# Errors in rule files

A rule set loads as a whole or not at all. What stops it is a fault, worded for the author of the
rules, and where it is known the file and the line of the fault: together a load error. The first
location that an error is given stays.

Some inputs stop a load, or an operation on the data it builds, without being a fault of a rule
file: a name that nobody registered, a broken promise of the caller, weights from which nothing
can be drawn, a numeral of more digits than are read, a path that is none. `Failure` joins them with
the load errors.
-/

namespace PairGrammar

/-- The content line of a block that is missing. -/
inductive ContentLine
  | second
  | third
  deriving DecidableEq, Repr

/-- The families that faults are reported under. -/
inductive FaultKind
  | general
  | directory
  | noRuleFiles
  | fileRead
  | incompleteBlock
  | header
  | doubleHash
  | reservedName
  | undefinedVariable
  | weightOverflow
  | sealedVariable
  | rootNotFound
  | emptyVariable
  deriving DecidableEq, Repr

/-- What is wrong with a rule set. -/
inductive Fault
  | directoryUnreadable (directory : String)
  | noRuleFiles (extension directory : String)
  | fileUnreadable (path detail : String)
  | lineMissing (line : ContentLine)
  | nameMissing
  | nameStart (c : Char)
  | nameCharacter (c : Char)
  | unknownProperty (word : Text)
  | weightMissing
  | weightNotDecimal (word : Text)
  | weightTooBig (numeral : Text)
  | doubleHash (line : Text)
  | reservedName
  | undefinedVariable (name : Text)
  | weightOverflow
  | sealedVariable
  | rootNotFound (root : Text)
  | emptyVariable (name : Text)
  | vanishedVariable (name : Text)
  | worded (kind : FaultKind) (message : String)
  deriving DecidableEq, Repr

namespace Fault

def kind : Fault → FaultKind
  | directoryUnreadable _ => .directory
  | noRuleFiles _ _ => .noRuleFiles
  | fileUnreadable _ _ => .fileRead
  | lineMissing _ => .incompleteBlock
  | nameMissing => .header
  | nameStart _ => .header
  | nameCharacter _ => .header
  | unknownProperty _ => .header
  | weightMissing => .header
  | weightNotDecimal _ => .header
  | weightTooBig _ => .header
  | doubleHash _ => .doubleHash
  | reservedName => .reservedName
  | undefinedVariable _ => .undefinedVariable
  | weightOverflow => .weightOverflow
  | sealedVariable => .sealedVariable
  | rootNotFound _ => .rootNotFound
  | emptyVariable _ => .emptyVariable
  | vanishedVariable _ => .emptyVariable
  | worded kind _ => kind

def message : Fault → String
  | directoryUnreadable directory => s!"source directory '{directory}' could not be opened."
  | noRuleFiles extension directory =>
    s!"not a single *.{extension} file has been found in directory '{directory}'."
  | fileUnreadable path detail => s!"unable to open file '{path}' ({detail})."
  | lineMissing .second => "second line of this hash expression is missing."
  | lineMissing .third => "third line of this hash expression is missing."
  | nameMissing => "missing variable name after #."
  | nameStart c => s!"variable name cannot start with '{c}'. Only letters a-zA-Z are allowed."
  | nameCharacter c => s!"character '{c}' is not allowed within a variable name."
  | unknownProperty word => s!"'{word.string}' is not a property of a hash expression."
  | weightMissing => "property 'weight' is not followed by a positive integer argument."
  | weightNotDecimal word => s!"value '{word.string}' is not a positive integer."
  | weightTooBig numeral =>
    s!"number '{numeral.string}' is too big. We are restricted by the range of int64."
  | doubleHash line => s!"the double hash expression '{line.string}' is not recognized."
  | reservedName => "variables with prefix __ are not allowed in this version of Iskierka."
  | undefinedVariable name => s!"variable '{name.string}' has not been defined."
  | weightOverflow =>
    "the weight of this hash expression is too big. Integer overflow happened."
  | sealedVariable =>
    "we cannot add more hash expressions. The variable is sealed and finished."
  | rootNotFound root =>
    s!"not a single instance of the variable '{root.string}' has been found."
  | emptyVariable name => s!"variable '{name.string}' does not have any hash expression."
  | vanishedVariable name =>
    s!"variable '{name.string}' does not have any hash expression. The source code file was " ++
      "probably mutated by an external program during parsing. Try to run again."
  | worded _ message => message

end Fault

/-- A fault and, where they are known, its file and its line. -/
structure LoadError where
  fault : Fault
  file : Option String := none
  line : Option Int := none
  deriving DecidableEq, Repr

namespace LoadError

/-- An error that already names a file keeps its location. -/
def locate (e : LoadError) (file : String) (line : Int) : LoadError :=
  match e.file with
  | none => { e with file := some file, line := some line }
  | some _ => e

def text (e : LoadError) : String :=
  match e.file with
  | none => s!"Iskierka error: {e.fault.message}"
  | some file =>
    let line := (e.line.map toString).getD "None"
    s!"Iskierka error in file '{file}' at line {line}: {e.fault.message}"

theorem locate_locate (e : LoadError) (f g : String) (k l : Int) :
    (e.locate f k).locate g l = e.locate f k := by
  cases h : e.file <;> simp [locate, h]

@[simp] theorem fault_locate (e : LoadError) (f : String) (k : Int) :
    (e.locate f k).fault = e.fault := by
  cases h : e.file <;> simp [locate, h]

end LoadError

/-- Why an operation on rules ended without a result. -/
inductive Failure
  | load (error : LoadError)
  | unknownName (name : Text)
  | rootMissing (root : Text)
  | brokenPromise
  | longNumeral (digits : Nat)
  | noWeights
  | negativeWeight
  | path (path : String) (trouble : PathTrouble)
  deriving DecidableEq, Repr

namespace Failure

def ofFault (f : Fault) : Failure := .load { fault := f }

/-- Only load errors have a location. -/
def locate (file : String) (line : Int) : Failure → Failure
  | load e => load (e.locate file line)
  | other => other

end Failure

end PairGrammar
