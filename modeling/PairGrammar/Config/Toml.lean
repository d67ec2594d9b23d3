import PairGrammar.Binary64

/-!
# TOML

A document of the configuration language TOML is one table, whose values are texts, numbers, truth
values, moments of time, lists and tables.

Documents are decoded outside of this library, so a decoder is a parameter of all that reads
configurations. A decoder gives the table of a document, or refuses it as malformed; it may also
break down, which is not reported as a malformed document. What it says in either case is its own.
-/

namespace PairGrammar

inductive Moment
  | date
  | dateTime
  | time
  deriving DecidableEq, Repr

/-- A value. Tables that are written within braces are inline tables. -/
inductive Toml
  | text (t : Text)
  | integer (n : Int)
  | float (x : Binary64)
  | boolean (b : Bool)
  | moment (m : Moment)
  | list (items : List Toml)
  | table (fields : List (Text × Toml)) (isInline : Bool)

namespace Toml

abbrev Fields := List (Text × Toml)

/-- Why a document has no table. -/
inductive Trouble
  | malformed (message : String)
  | breakdown (message : String)
  deriving DecidableEq, Repr

abbrev Decoder := Text → Except Trouble Fields

end Toml

end PairGrammar
