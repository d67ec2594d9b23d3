import PairGrammar.Cli.Amount
import PairGrammar.Cli.Arguments
import PairGrammar.Pair.Format

/-!
# Requests on the command line

A command line asks for the version, for help, or for one of four commands, each with options of
its own. An option that is not given has a default value, from the configuration or else fixed.
Where an integer is asked for, a default that is a text is read as one; other defaults stand as
they are, and none is compared with the values that may be chosen on the command line. An option
that is blanked out has neither a value nor its default.
-/

namespace PairGrammar.Cli

/-- What an option has been given, on the command line or by default. -/
inductive Given (α : Type)
  | value (a : α)
  | blank
  deriving DecidableEq, Repr

def Given.value? {α : Type} : Given α → Option α
  | value a => some a
  | blank => none

structure GenerateOptions where
  directory : String
  count : Given Amount
  limit : Given Amount
  seed : Option (Given Amount)
  format : PairFormat
  outputFile : Option String
  quiet : Bool
  logLevel : Option Scalar

inductive Command
  | generate (options : GenerateOptions)
  | check (directory : String) (logLevel : Option Scalar)
  | create (directory : Given Scalar) (baseName : Scalar)
  | config (outputFile : Option String)

inductive Request
  | version
  | nothing
  | help (program : String)
  | command (c : Command)

/-- An error in the arguments, of the program or of one of its commands. -/
structure UsageError where
  program : String
  error : ArgumentError

/-! ### Usage -/

def programName : String := "iskierka"

def helpOption : OptionSpec := ⟨["-h", "--help"], .help⟩

def versionOption : OptionSpec := ⟨["-v", "--version"], .switch⟩

def countOption : OptionSpec := ⟨["-n", "--num-pairs"], .integer⟩

def limitOption : OptionSpec := ⟨["-r", "--level-limit"], .integer⟩

def seedOption : OptionSpec := ⟨["-s", "--seed"], .integer⟩

def formatOption : OptionSpec := ⟨["-f", "--format"], .choice ["text", "jsonl"]⟩

def outputFileOption : OptionSpec := ⟨["-o", "--output-file"], .text⟩

def quietOption : OptionSpec := ⟨["-q", "--quiet"], .switch⟩

def logLevelOption : OptionSpec :=
  ⟨["-l", "--log-level"], .choice ["ERROR", "WARNING", "INFO", "DEBUG"]⟩

def outputDirOption : OptionSpec := ⟨["-d", "--output-dir"], .text⟩

def baseNameOption : OptionSpec := ⟨["-b", "--base-name"], .text⟩

def directoryOperand : String := "DIRECTORY"

def mainUsage : Usage := ⟨[helpOption, versionOption], .rest⟩

def generateUsage : Usage :=
  ⟨[helpOption, countOption, limitOption, seedOption, formatOption, outputFileOption, quietOption,
    logLevelOption], .single directoryOperand⟩

def checkUsage : Usage := ⟨[helpOption, logLevelOption], .single directoryOperand⟩

def createUsage : Usage := ⟨[helpOption, outputDirOption, baseNameOption], .none⟩

def configUsage : Usage := ⟨[helpOption, outputFileOption], .none⟩

def commandNames : List String := ["generate", "check", "create", "config"]

/-! ### Values of options -/

/-- The value of an option that is a text, or its default. -/
def textOr (r : Reading) (name : String) (default : Option Scalar) : Option (Given Scalar) :=
  match r.value? name with
  | some (.text s) => some (.value (.text s))
  | some .blank => some .blank
  | _ => default.map .value

/-- The value of an option that is an integer, or its default. -/
def amountOr (r : Reading) (o : OptionSpec) (default : Option Scalar) :
    Except ArgumentError (Option (Given Amount)) :=
  match (r.values.find? (·.1 = o)).map Prod.snd, default with
  | some .blank, _ => .ok (some .blank)
  | some (.integer n), _ => .ok (some (.value (.integer n)))
  | _, none => .ok none
  | _, some (.integer n) => .ok (some (.value (.integer n)))
  | _, some (.float x) => .ok (some (.value (.float x)))
  | _, some (.boolean b) => .ok (some (.value (.boolean b)))
  | _, some (.text s) => match Numeral.integer? s.toList with
    | none => .error (.notInteger o s)
    | some n => .ok (some (.value (.integer n)))

def logLevelOr (r : Reading) (default : Option Scalar) : Option Scalar :=
  (textOr r "--log-level" default).bind Given.value?

def outputFile (r : Reading) : Option String :=
  match r.value? "--output-file" with
  | some (.text s) => some s
  | _ => none

def operandOr (r : Reading) : Except ArgumentError String :=
  match r.operand with
  | some (a :: _) => .ok a
  | _ => .error (.operandMissing directoryOperand)

/-! ### Commands -/

/-- Defaults are read before a missing operand is noticed. -/
def readGenerate (c : Config) (r : Reading) : Except ArgumentError Command :=
  let default := c.default? "generate"
  match amountOr r countOption ((default "--num-pairs").or (some (.integer 10))) with
  | .error e => .error e
  | .ok count => match amountOr r limitOption ((default "--level-limit").or
      (some (.integer 2048))) with
    | .error e => .error e
    | .ok limit => match amountOr r seedOption (default "--seed") with
      | .error e => .error e
      | .ok seed => match operandOr r with
        | .error e => .error e
        | .ok directory => .ok <| .generate {
            directory := directory
            count := count.getD (.value (.integer 10))
            limit := limit.getD (.value (.integer 2048))
            seed := seed
            format :=
              if textOr r "--format" (default "--format") = some (.value (.text "jsonl")) then .json
              else .plain
            outputFile := outputFile r
            quiet := (r.value? "--quiet").isSome || (default "--quiet").any Scalar.isTrue
            logLevel := logLevelOr r (default "--log-level") }

def readCheck (c : Config) (r : Reading) : Except ArgumentError Command :=
  match operandOr r with
  | .error e => .error e
  | .ok directory =>
    .ok (.check directory (logLevelOr r (c.default? "check" "--log-level")))

/-- How a name that is blanked out is shown. -/
def blankName : Scalar := .text "[]"

def readCreate (c : Config) (r : Reading) : Except ArgumentError Command :=
  let default := c.default? "create"
  let baseName := (textOr r "--base-name" (default "--base-name")).getD (.value (.text "output"))
  .ok (.create
    ((textOr r "--output-dir" (default "--output-dir")).getD (.value (.text ".")))
    (baseName.value?.getD blankName))

def readConfig (_ : Config) (r : Reading) : Except ArgumentError Command :=
  .ok (.config (outputFile r))

def usageOf (name : String) :
    Option (Usage × (Config → Reading → Except ArgumentError Command)) :=
  match name with
  | "generate" => some (generateUsage, readGenerate)
  | "check" => some (checkUsage, readCheck)
  | "create" => some (createUsage, readCreate)
  | "config" => some (configUsage, readConfig)
  | _ => none

/-- The request of a command with its arguments, and the arguments that are left over. -/
def readCommand (c : Config) (name : String) (args : List String) :
    Except UsageError (Request × List String) :=
  match usageOf name with
  | none => .error ⟨programName, .unknownCommand name commandNames⟩
  | some (u, finish) =>
    let program := programName ++ " " ++ name
    match u.read args with
    | .error e => .error ⟨program, e⟩
    | .ok r =>
      if r.helpWanted then .ok (.help program, [])
      else match finish c r with
        | .error e => .error ⟨program, e⟩
        | .ok command => .ok (.command command, r.left)

/-- The request of a command line. A command is read as soon as it is come upon, but the version is
given before any command runs. -/
def readRequest (c : Config) (args : List String) : Except UsageError Request :=
  match mainUsage.read args with
  | .error e => .error ⟨programName, e⟩
  | .ok r => match r.operand with
    | none =>
      if r.helpWanted then .ok (.help programName)
      else if r.left ≠ [] then .error ⟨programName, .leftOver r.left⟩
      else if (r.value? "--version").isSome then .ok .version
      else .ok .nothing
    | some operand => match readCommand c (operand.headD "") operand.tail with
      | .error e => .error e
      | .ok (.help p, _) => .ok (.help p)
      | .ok (request, left) =>
        if r.left ++ left ≠ [] then .error ⟨programName, .leftOver (r.left ++ left)⟩
        else if (r.value? "--version").isSome then .ok .version
        else .ok request

end PairGrammar.Cli
