import PairGrammar.Files.Path
import PairGrammar.Files.Trouble

/-!
# Trees of files

A tree holds the files and folders below the working folder, each under the names that lead to it.
A path is followed name by name, and every name on the way has to be one of a folder; a double dot
leads to the folder above, and a single one stays. The folders above the working folder exist, and
nothing else of them is known.

A file is written at the last name of a path. A path that ends in dots or in a slash asks for a
folder, so that no file is written there.
-/

namespace PairGrammar

inductive FileNode
  | file (bytes : ByteArray)
  | folder

structure FileTree where
  nodes : List (List String × FileNode) := []

namespace FileTree

def isAbove (names : List String) : Bool := names.all (· = "..")

def node? (t : FileTree) (names : List String) : Option FileNode :=
  if isAbove names ∨ names = ["/"] then some .folder else t.nodes.lookup names

/-- The folder above a place. -/
def above (place : List String) : List String :=
  if place = ["/"] then place
  else if isAbove place then place ++ [".."]
  else place.dropLast

/-- Goes from a place, which has to be a folder, to one of its names. -/
def enter (t : FileTree) (place : List String) (n : String) : Except PathTrouble (List String) :=
  match t.node? place with
  | none => .error .notFound
  | some (.file _) => .error .notFolder
  | some .folder =>
    if PathTrouble.isTooLong n then .error .nameTooLong
    else if n = "." then .ok place
    else if n = ".." then .ok (above place)
    else .ok (place ++ [n])

/-- The place at which a path starts. -/
def start (path : String) : List String := if path.startsWith "/" then ["/"] else []

/-- The place that a path leads to, whether or not there is anything. -/
def place (t : FileTree) (path : String) : Except PathTrouble (List String) :=
  match PathTrouble.ofText? path with
  | some e => .error e
  | none => (Path.steps path).foldlM t.enter (start path)

def find (t : FileTree) (path : String) : Except PathTrouble FileNode :=
  match t.place path with
  | .error e => .error e
  | .ok names => match t.node? names with
    | none => .error .notFound
    | some n => .ok n

def isFolder (t : FileTree) (path : String) : Bool :=
  match t.find path with
  | .ok .folder => true
  | _ => false

def isFile (t : FileTree) (path : String) : Bool :=
  match t.find path with
  | .ok (.file _) => true
  | _ => false

/-- Whether a path leads to something. -/
def contains (t : FileTree) (path : String) : Bool := (t.find path).isOk

def bytes (t : FileTree) (path : String) : Except PathTrouble ByteArray :=
  match t.find path with
  | .error e => .error e
  | .ok (.file b) => .ok b
  | .ok .folder => .error .isFolder

/-- The names of what lies directly in a folder, in the order of their characters. -/
def entries (t : FileTree) (path : String) : List String :=
  match t.place path with
  | .error _ => []
  | .ok names =>
    (t.nodes.filterMap fun n =>
      if n.1.dropLast = names ∧ n.1 ≠ [] then n.1.getLast? else none).mergeSort
        fun a b => Text.isUpTo a.toList b.toList

/-- Puts a file or a folder at its names, in place of what was there. -/
def put (t : FileTree) (names : List String) (n : FileNode) : FileTree :=
  if t.nodes.any (·.1 = names) then
    ⟨t.nodes.map fun m => if m.1 = names then (names, n) else m⟩
  else ⟨t.nodes ++ [(names, n)]⟩

/-- Puts a file or a folder together with the folders that it lies in. -/
def add (t : FileTree) (path : String) (n : FileNode) : FileTree :=
  let names := match Path.ofString path with
    | ⟨0, names⟩ => names
    | ⟨_, names⟩ => "/" :: names
  let above := (List.range names.length).filterMap fun k =>
    if k = 0 then none else some (names.take k)
  (above.foldl (fun t ns => if (t.node? ns).isSome then t else t.put ns .folder) t).put names n

/-- Puts a file or a folder where a path leads, if it leads anywhere. -/
def putAt (t : FileTree) (path : String) (n : FileNode) : FileTree :=
  match t.place path with
  | .error _ => t
  | .ok names => t.put names n

/-- The place of the file that is written at a path, which may be there already. -/
def filePlace (t : FileTree) (path : String) : Except PathTrouble (List String) :=
  match PathTrouble.ofText? path, (Path.written path).getLast? with
  | some e, _ => .error e
  | none, none => .error .isFolder
  | none, some n => do
    let parent ← (Path.written path).dropLast.foldlM t.enter (start path)
    let asksForFolder := n = "." ∨ n = ".." ∨ path.endsWith "/"
    let place ← t.enter parent (if asksForFolder then "." else n)
    match t.node? place with
    | some .folder => .error .isFolder
    | _ => .ok place

/-- The tree with a file written, new or in place of the old one. -/
def write (t : FileTree) (path : String) (bytes : ByteArray) : Except PathTrouble FileTree :=
  (t.filePlace path).map fun names => t.put names (.file bytes)

/-- The path of a place. -/
def pathTo : (place : List String) → String
  | "/" :: names => "/" ++ "/".intercalate names
  | names => "/".intercalate names

/-- The files of a later tree that are new or hold something else, by their paths. -/
def written (t later : FileTree) : List (String × ByteArray) :=
  later.nodes.filterMap fun (names, n) => match n, t.nodes.lookup names with
    | .folder, _ => none
    | .file b, some (.file a) => if a.data = b.data then none else some (pathTo names, b)
    | .file b, _ => some (pathTo names, b)

end FileTree

end PairGrammar
