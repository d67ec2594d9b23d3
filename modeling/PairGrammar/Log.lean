/-!
# Notes in the log

A note has a level, the name of the part that wrote it, and a message. A log shows the notes of at
least its level, one per line.
-/

namespace PairGrammar

inductive LogLevel
  | debug
  | info
  | warning
  | error
  deriving DecidableEq, Repr

namespace LogLevel

def name : LogLevel → String
  | debug => "DEBUG"
  | info => "INFO"
  | warning => "WARNING"
  | error => "ERROR"

def rank : LogLevel → Nat
  | debug => 0
  | info => 1
  | warning => 2
  | error => 3

def ofName? (s : String) : Option LogLevel :=
  [error, warning, info, debug].find? (·.name = s)

end LogLevel

structure Note where
  level : LogLevel
  origin : String
  message : String
  deriving DecidableEq, Repr

namespace Note

def line (n : Note) : String := s!"{n.level.name}:{n.origin}:{n.message}"

def isShown (least : LogLevel) (n : Note) : Bool := least.rank ≤ n.level.rank

end Note

end PairGrammar
