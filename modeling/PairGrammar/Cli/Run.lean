import PairGrammar.Cli.Bundled
import PairGrammar.Cli.Request
import PairGrammar.Cli.Session
import PairGrammar.Files.Rules
import PairGrammar.Grammar.Reachable

/-!
# Running a command line

A command line runs on a tree of files and the texts of the configuration files, for which there is
a decoder. It writes to the standard output, to the standard error output and to files, and ends
with an exit code, or with a crash where something is wrong that is not reported to the user. The
command `generate` leads to a session if everything about it is in order; all other commands are
done at once.
-/

namespace PairGrammar.Cli

def versionText : String := "0.1.0"

def usageCode : Nat := 2

def dataCode : Nat := 65

/-- What ends a run without being reported to the user. -/
inductive Crash
  | failure (f : Failure)
  | unknownLevel (level : Scalar)
  | noPath (given : Given Scalar)
  | descriptorTooBig
  | descriptorTooSmall
  | noNumber
  | noSeed
  | noText (flaw : String)
  | configuration (message : String)

def Crash.message : Crash → String
  | failure (.load e) => e.text
  | failure (.unknownName n) => s!"unknown name '{n.string}'"
  | failure (.longNumeral n) => s!"a numeral of {n} digits is too long"
  | failure (.path p trouble) => trouble.message p
  | failure _ => "broken rules"
  | unknownLevel l => s!"unknown log level {l.string}"
  | noPath .blank => "a directory is missing"
  | noPath (.value _) => "a number is no path"
  | descriptorTooBig => "the number of an open file is too big"
  | descriptorTooSmall => "the number of an open file is too small"
  | noNumber => "a number is missing"
  | noSeed => "a seed is missing"
  | noText flaw => flaw
  | configuration message => message

inductive Ending
  | exit (code : Nat)
  | crash (c : Crash)

/-- The end of a run: what it has written, and the files as they are then. -/
structure Report where
  emitted : List Emission
  ending : Ending
  tree : FileTree

/-- What a run comes to: its end, or a session that follows what has been written so far. The
session may write to a file. -/
inductive Course
  | done (r : Report)
  | session (emitted : List Emission) (s : Session) (tree : FileTree) (file : Option String)

/-- Everything around a command line: the files, a decoder for configurations, the texts of these or
the flaw of one that is no text, and a seed for sessions that are not given one. -/
structure World where
  tree : FileTree
  decode : Toml.Decoder
  configurations : Except String ConfigTexts := .ok {}
  seed : Nat := 0

def leave (w : World) (code : Nat) (es : List Emission) : Course := .done ⟨es, .exit code, w.tree⟩

def crash (w : World) (c : Crash) (es : List Emission := []) : Course :=
  .done ⟨es, .crash c, w.tree⟩

def errorLine (command text : String) : Emission := .err s!"iskierka {command}: {text}\n"

def noDirectory (w : World) (command path : String) : Course :=
  leave w usageCode [errorLine command s!"error: path {path} does not exist or is no directory"]

/-- The level of the log. An empty one switches the log off, and one without a name is no level. -/
def logLevel (l : Option Scalar) : Except Scalar (Option LogLevel) :=
  match l with
  | none => .ok none
  | some l =>
    if !l.isTrue then .ok none
    else match l with
      | .text s => match LogLevel.ofName? s with
        | some level => .ok (some level)
        | none => .error l
      | l => .error l

/-! ### The commands -/

/-- The session of a generator. Its output file is made empty, and only then is it noticed that
there is no number of pairs. -/
def openSession (w : World) (o : GenerateOptions) (limit : Amount) (level : Option LogLevel)
    (g : Generator Twister) (log : List Emission) : Course :=
  let file := o.outputFile.filter (· ≠ "")
  let tree : Except Failure FileTree := match file with
    | none => .ok w.tree
    | some p => (w.tree.write p .empty).mapError (Failure.path p)
  match tree, o.count with
  | .error f, _ => crash w (.failure f) log
  | .ok t, .blank => .done ⟨log, .crash .noNumber, t⟩
  | .ok t, .value count =>
    .session log
      { generator := g, quota := count.quota, count := count, limit := limit,
        format := o.format, toFile := file.isSome, logLevel := level } t file

/-- Loads the rules and opens a session. -/
def startSession (w : World) (o : GenerateOptions) (limit : Amount) (seed : Nat)
    (level : Option LogLevel) : Course :=
  match w.tree.loadRules o.directory with
  | (loaded, notes) =>
    let log := logLines level notes
    match Generator.ofLoaded loaded (Twister.ofSeed seed) limit.ceiling with
    | .error f => crash w (.failure f) log
    | .ok g => match g.loadError with
      | some e => leave w dataCode (log ++ if o.quiet then [] else [errorLine "generate" e.text])
      | none => openSession w o limit level g log

def runGenerate (w : World) (o : GenerateOptions) (level : Option LogLevel) : Course :=
  if !w.tree.isFolder o.directory then noDirectory w "generate" o.directory
  else match o.limit, o.seed with
    | .blank, _ => crash w .noNumber
    | .value limit, seed =>
      if limit.isAtMostZero then
        leave w usageCode [errorLine "generate" "error: the level limit must be positive"]
      else match seed with
        | some .blank => crash w .noSeed
        | some (.value seed) => startSession w o limit seed.seed level
        | none => startSession w o limit w.seed level

def runCheck (w : World) (directory : String) (level : Option LogLevel) : Course :=
  if !w.tree.isFolder directory then noDirectory w "check" directory
  else match w.tree.loadRules directory with
    | (loaded, notes) =>
      let log := logLines level notes
      match loaded with
      | .error (.load e) => leave w dataCode (log ++ [errorLine "check" e.text])
      | .error f => crash w (.failure f) log
      | .ok g =>
        let described := log ++ [Emission.out (g.describe ++ "\n")]
        match g.unreachable Name.output with
        | .error n => crash w (.failure (.unknownName n)) described
        | .ok names => leave w 0 <| described ++ (Loader.sortNames names).map fun n =>
          errorLine "check" <|
            s!"warning: variable '{n.string}' is not reachable from '{g.root.string}'"

/-- The path of the rule file that `create` writes. -/
def newRulesPath (directory : String) (baseName : Scalar) : String :=
  Path.joined directory (baseName.string ++ "." ++ ruleExtension)

/-- The greatest number of an open file. -/
def maxDescriptor : Int := 0x7FFFFFFF

def createIn (w : World) (directory : String) (baseName : Scalar) : Course :=
  if !w.tree.isFolder directory then noDirectory w "create" directory
  else
    let path := newRulesPath directory baseName
    if w.tree.contains path then
      leave w usageCode [errorLine "create" s!"error: file {path} exists"]
    else match w.tree.write path starter.toUTF8 with
      | .error e => crash w (.failure (.path path e))
      | .ok t => .done ⟨[.out s!"`iskierka create` produced the file {path}\n"], .exit 0, t⟩

/-- An integer, or a truth value, is taken for the number of an open file, which is no folder. -/
def runCreate (w : World) (directory : Given Scalar) (baseName : Scalar) : Course :=
  match directory with
  | .blank => crash w (.noPath directory)
  | .value (.float _) => crash w (.noPath directory)
  | .value (.integer n) =>
    if maxDescriptor < n then crash w .descriptorTooBig
    else if n < -(maxDescriptor + 1) then crash w .descriptorTooSmall
    else noDirectory w "create" (Scalar.integer n).string
  | .value (.boolean b) => noDirectory w "create" (Scalar.boolean b).string
  | .value (.text d) => createIn w d baseName

def runConfig (w : World) (outputFile : Option String) : Course :=
  match outputFile.filter (· ≠ "") with
  | none => leave w 0 [.out (configuration ++ "\n")]
  | some p => match w.tree.write p configuration.toUTF8 with
    | .error e => crash w (.failure (.path p e))
    | .ok t => .done ⟨[], .exit 0, t⟩

def runCommand (w : World) (c : Command) : Course :=
  let logged := fun (l : Option Scalar) (f : Option LogLevel → Course) => match logLevel l with
    | .error l => crash w (.unknownLevel l)
    | .ok level => f level
  match c with
  | .generate o => logged o.logLevel (runGenerate w o)
  | .check d l => logged l (runCheck w d)
  | .create d b => runCreate w d b
  | .config f => runConfig w f

/-! ### Command lines -/

/-- The texts of the configuration files of the working folder and of the home folder. The ends of
their lines may be written in any way. -/
def readConfigurations (here home : Option ByteArray) : Except String ConfigTexts := do
  let read := fun (b : ByteArray) => (Text.ofBytes b).map Text.unifyEnds
  return { here := ← here.mapM read, home := ← home.mapM read }

/-- The configuration of texts, behind which the bundled one stands. -/
def loadConfig (decode : Toml.Decoder) (ts : ConfigTexts) : Except ConfigError Config :=
  Config.ofTexts decode (ts.inOrder configuration.toList)

def configTrouble (command : String) (e : ConfigError) : String :=
  s!"iskierka {command}: error: could not load .iskierkarc ({e.message})\n"

def chooseText : String :=
  "error: You have to choose a global option or one of the commands `generate`, `check`, " ++
    "`create`, or `config`"

/-- The configuration that a command looks its defaults up in, or what ends the run if there is
none. -/
def configFor (w : World) (command : String) : Except Report Config :=
  match w.configurations with
  | .error flaw => .error ⟨[], .crash (.noText flaw), w.tree⟩
  | .ok ts => match loadConfig w.decode ts with
    | .error (.breakdown message) => .error ⟨[], .crash (.configuration message), w.tree⟩
    | .error e => .error ⟨[.err (configTrouble command e)], .exit 1, w.tree⟩
    | .ok c => .ok c

/-- The default value of an option of a command. -/
def getDefault (w : World) (command option : String) : Except Report (Option Scalar) :=
  (configFor w command).map (·.default? command option)

/-- The configuration is read first, for the command that comes first among all. -/
def start (w : World) (args : List String) : Course :=
  match configFor w "generate" with
  | .error r => .done r
  | .ok c => match readRequest c args with
    | .error e => leave w usageCode [.err s!"{e.program}: error: {e.error.message}\n"]
    | .ok .version => leave w 0 [.out s!"Iskierka version {versionText}\n"]
    | .ok .nothing => leave w usageCode [.err s!"iskierka: {chooseText}\n"]
    | .ok (.help program) => leave w 0 [.out s!"usage: {program}\n"]
    | .ok (.command c) => runCommand w c

def textTo (which : Emission → Option String) (es : List Emission) : String :=
  String.join (es.filterMap which)

def outText (es : List Emission) : String :=
  textTo (fun e => match e with
    | .out s => some s
    | _ => none) es

def errText (es : List Emission) : String :=
  textTo (fun e => match e with
    | .err s => some s
    | _ => none) es

/-- What has been written to the output file. -/
def fileText (es : List Emission) : String :=
  textTo (fun e => match e with
    | .file s => some s
    | _ => none) es

/-- The end that a course comes to, with at most `most` requests and an interruption behind some
pair. -/
def Course.report (interrupt : Option Nat) (most : Nat) : Course → Report
  | .done r => r
  | .session es s t file => match s.run interrupt most with
    | (fs, code) =>
      let tree := match file with
        | none => t
        | some p => (t.write p (fileText fs).toUTF8).toOption.getD t
      ⟨es ++ fs, .exit code, tree⟩

/-- A whole run. -/
def run (w : World) (interrupt : Option Nat) (most : Nat) (args : List String) : Report :=
  (start w args).report interrupt most

end PairGrammar.Cli
