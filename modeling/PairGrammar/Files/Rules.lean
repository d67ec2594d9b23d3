import PairGrammar.Files.Tree
import PairGrammar.Loader
import PairGrammar.Text.Utf8

/-!
# Rule files in a folder

The rule files of a folder are the files that lie directly in it and whose names end in a dot and
the extension, in the order of their names. Each is a source whose lines end as lines of files do;
a file that cannot be read, or that is not text, is a source whose reading fails.
-/

namespace PairGrammar

def ruleExtension : String := "iski"

namespace FileTree

/-- The lines of a file. A file that cannot be opened is reported as a fault of the rules, unless
the path is none for its null character. -/
def readText (t : FileTree) (path : Path) : Reading :=
  match t.bytes path.string with
  | .error .nullCharacter => .error (.path path.string .nullCharacter)
  | .error e => .error (.ofFault (.fileUnreadable path.string (e.message path.string)))
  | .ok b => match Text.ofPieces b with
    | .error flaw => .error (.ofFault (.fileUnreadable path.string flaw))
    | .ok text => .ok text.unifyEnds.lines

def source (t : FileTree) (path : Path) : Source := ⟨path.string, t.readText path, []⟩

/-- The rule files of a folder. A path that is too long is no fault of the rules. -/
def listRules (t : FileTree) (folder : String) (extension : String := ruleExtension) :
    Except Failure (List Path) :=
  let path := Path.ofString folder
  match t.find path.string with
  | .ok .folder =>
    .ok <| ((t.entries path.string).filter fun name =>
      Path.suffix name = some ("." ++ extension) ∧
        t.isFile (path.child name).string).map path.child
  | .error .nameTooLong => .error (.path path.string .nameTooLong)
  | _ => .error (.ofFault (.directoryUnreadable folder))

/-- At least one rule file. -/
def findRules (t : FileTree) (folder : String) (extension : String := ruleExtension) :
    Except Failure (List Path) :=
  match t.listRules folder extension with
  | .error f => .error f
  | .ok [] => .error (.ofFault (.noRuleFiles extension folder))
  | .ok paths => .ok paths

def foundNotes (t : FileTree) (folder : String) : List Note :=
  match t.listRules folder with
  | .error _ => []
  | .ok paths =>
    [⟨.debug, "iskierka.files", s!"Found {paths.length} rule file(s) in {folder}"⟩]

/-- The grammar that the rule files of a folder define, and the notes of loading it. -/
def loadRules (t : FileTree) (folder : String) (root : Name := Name.output) :
    Except Failure Grammar × List Note :=
  match t.findRules folder with
  | .error f => (.error f, t.foundNotes folder)
  | .ok paths =>
    let loaded := Loader.load { sources := paths.map t.source, root := root }
    (loaded.result, t.foundNotes folder ++ loaded.notes)

end FileTree

end PairGrammar
