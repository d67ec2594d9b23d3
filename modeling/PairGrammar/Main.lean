import PairGrammar.Cli.Run
import PairGrammar.Config.Toml.Document

/-!
# The program

The program looks at the files that its arguments name, runs the command line on them, and writes
what comes of it. A session writes each pair as soon as it is generated.
-/

namespace PairGrammar.Cli

/-! ### Looking at files -/

/-- The tree with what lies at a path, and with the folders on the way to it. -/
def look (t : FileTree) (path : String) : IO FileTree := do
  let here ← IO.currentDir
  let whole := Path.ofString path
  let mut t := t
  for k in List.range whole.names.length do
    let part := { whole with names := whole.names.take (k + 1) }.string
    if !t.isFolder part then
      if ← (here / part).isDir then
        t := t.putAt part .folder
      else if ← (here / part).pathExists then
        t := t.putAt part (.file (← IO.FS.readBinFile (here / part)))
  return t

/-- The tree with a folder and the rule files in it. -/
def lookInto (t : FileTree) (folder : String) : IO FileTree := do
  let here ← IO.currentDir
  let mut t ← look t folder
  if t.isFolder folder then
    for entry in ← (here / folder).readDir do
      if Path.suffix entry.fileName = some ("." ++ ruleExtension) then
        t ← look t (Path.joined folder entry.fileName)
  return t

/-- The files that matter to a command. -/
def filesFor : Command → IO FileTree
  | .generate o => do look (← lookInto {} o.directory) (o.outputFile.getD "")
  | .check directory _ => lookInto {} directory
  | .create (.value (.text directory)) baseName => do
    look (← look {} directory) (newRulesPath directory baseName)
  | .create _ _ => return {}
  | .config outputFile => look {} (outputFile.getD "")

/-- The configuration file of a folder, if there is one. -/
def configurationIn (folder : String) : IO (Option ByteArray) := do
  let file := (← IO.currentDir) / folder / ".iskierkarc"
  if ← file.pathExists then
    return some (← IO.FS.readBinFile file)
  else return none

/-- The configuration files of the working folder and of the home folder. -/
def configurationFiles : IO (Option ByteArray × Option ByteArray) := do
  let home ← match ← IO.getEnv "HOME" with
    | none => pure none
    | some folder => configurationIn folder
  return (← configurationIn ".", home)

def randomSeed : IO Nat := do
  let bytes ← IO.getRandomBytes 32
  return bytes.toList.foldl (fun n b => 256 * n + b.toNat) 0

/-! ### Writing -/

def put (stream : IO.FS.Stream) (s : String) : IO Unit := do
  stream.putStr s
  stream.flush

def emit (file : Option IO.FS.Handle) : Emission → IO Unit
  | .out s => do put (← IO.getStdout) s
  | .err s => do put (← IO.getStderr) s
  | .file s => match file with
    | none => return
    | some handle => do
      handle.putStr s
      handle.flush

/-- Makes the requests of a session to the last, which may never come. -/
partial def serve (file : Option IO.FS.Handle) (s : Session) : IO Nat :=
  match s.advance with
  | none => return s.code
  | some (es, s) => do
    es.forM (emit file)
    serve file s

def finish (before : FileTree) (r : Report) : IO Nat := do
  for (path, bytes) in before.written r.tree do
    IO.FS.writeBinFile path bytes
  r.emitted.forM (emit none)
  match r.ending with
  | .exit code => return code
  | .crash c => do
    put (← IO.getStderr) (c.message ++ "\n")
    return 1

def runProgram (args : List String) : IO Nat := do
  let (here, home) ← configurationFiles
  let w : World :=
    { tree := {}, decode := Toml.decode, configurations := readConfigurations here home,
      seed := ← randomSeed }
  let request := (configFor w "generate").toOption.bind fun c => (readRequest c args).toOption
  let tree ← match request with
    | some (.command c) => filesFor c
    | _ => pure {}
  match start { w with tree := tree } args with
  | .done r => finish tree r
  | .session es s _ path => do
    es.forM (emit none)
    match path with
    | none => serve none s
    | some p => serve (some (← IO.FS.Handle.mk p .write)) s

end PairGrammar.Cli

def main (args : List String) : IO UInt32 := do
  return UInt32.ofNat (← PairGrammar.Cli.runProgram args)
