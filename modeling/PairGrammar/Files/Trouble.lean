import PairGrammar.Text.Shown

/-!
# Troubles with paths

A path may lead nowhere, or not to what is asked for, and some texts are no paths: those with a null
character, those without a character, and those that are too long as a whole or in one of their
names.
-/

namespace PairGrammar

inductive PathTrouble
  | notFound
  | notFolder
  | isFolder
  | nameTooLong
  | nullCharacter
  deriving DecidableEq, Repr

namespace PathTrouble

def message (path : String) : PathTrouble → String
  | notFound => s!"[Errno 2] No such file or directory: {Text.showString path}"
  | notFolder => s!"[Errno 20] Not a directory: {Text.showString path}"
  | isFolder => s!"[Errno 21] Is a directory: {Text.showString path}"
  | nameTooLong => s!"[Errno 36] File name too long: {Text.showString path}"
  | nullCharacter => "embedded null byte"

/-- The greatest number of bytes of a path. -/
def maxPathLength : Nat := 4095

/-- The greatest number of bytes of one name. -/
def maxNameLength : Nat := 255

def isTooLong (name : String) : Bool := maxNameLength < name.utf8ByteSize

/-- What keeps a text from being a path at all. -/
def ofText? (path : String) : Option PathTrouble :=
  if path.toList.contains '\x00' then some nullCharacter
  else if path = "" then some notFound
  else if maxPathLength < path.utf8ByteSize then some nameTooLong
  else none

end PathTrouble

end PairGrammar
