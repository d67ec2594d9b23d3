import PairGrammar.Block
import PairGrammar.Grammar
import PairGrammar.Piece.Reader

/-!
# The registry of variables

While rules are read, the registry holds a draft for every name that a header has introduced, in
the order of introduction. Two passes fill it. The first one enters the names. The second one adds
the productions, and by then every name that a line may refer to is known, wherever it is
introduced.

Both passes go through the items of a source. An item that is at fault ends the pass; what the
items before it did stays.
-/

namespace PairGrammar

abbrev Registry := List Draft

namespace Registry

def names (reg : Registry) : List Name := reg.map (·.name)

def declares (reg : Registry) (n : Name) : Bool := reg.names.contains n

def find? (reg : Registry) (n : Name) : Option Draft := List.find? (·.name = n) reg

/-- Enters a name that is new. -/
def enter (reg : Registry) (n : Name) : Registry :=
  if reg.declares n then reg else reg ++ [{ name := n }]

/-- The draft takes the place of the one of its name. -/
def update (reg : Registry) (d : Draft) : Registry :=
  reg.map fun e => if e.name = d.name then d else e

/-- The pieces of a content line; blanks in front of it do not count. -/
def readContent (reg : Registry) (line : Text) : Except Fault (List Piece) :=
  if line = Header.emptyLine then .ok [] else Piece.readLine reg.declares line.trimLeft

/-! ### Going through items -/

/-- Goes through items up to the first that is at fault. A load error is located there. -/
def through {σ : Type} (step : σ → Item → Except Failure σ) (file : String) :
    σ → List (Nat × Item) → σ × Option Failure
  | s, [] => (s, none)
  | s, (k, i) :: items => match step s i with
    | .error e => (s, some (e.locate file k))
    | .ok s' => through step file s' items

/-! ### Entering the names -/

def declareItem (reg : Registry) : Item → Except Failure Registry
  | .header line => match Header.readName line with
    | .error e => .error e
    | .ok (n, _) => .ok (reg.enter n)
  | .natural _ => .ok reg
  | .code _ => .ok reg
  | .missing which => .error (.ofFault (.lineMissing which))

def declare (reg : Registry) (file : String) (lines : List Text) : Registry × Option Failure :=
  through declareItem file reg (Item.scanLines lines)

/-! ### Adding the productions -/

/-- How much of a block has been read. -/
inductive Progress
  | none
  | header (h : Header)
  | natural (h : Header) (ps : List Piece)

/-- Adds a production to the draft that a header names. -/
def add (reg : Registry) (h : Header) (p : Production) : Except Failure Registry :=
  match reg.find? h.name with
  | none => .error (.unknownName h.name)
  | some d =>
    if d.overflows h.weight then .error (.ofFault .weightOverflow)
    else match d.insert p h.weight with
      | .error e => .error e
      | .ok none => .error (.ofFault .sealedVariable)
      | .ok (some d') => .ok (reg.update d')

def buildItem : Registry × Progress → Item → Except Failure (Registry × Progress)
  | (reg, _), .header line => match Header.read line with
    | .error e => .error e
    | .ok h => .ok (reg, .header h)
  | (reg, .header h), .natural line => match reg.readContent line with
    | .error f => .error (.ofFault f)
    | .ok ps => .ok (reg, .natural h ps)
  | (reg, .natural h ps), .code line => match reg.readContent line with
    | .error f => .error (.ofFault f)
    | .ok qs => match reg.add h ⟨ps, qs⟩ with
      | .error e => .error e
      | .ok reg' => .ok (reg', .none)
  | _, .missing which => .error (.ofFault (.lineMissing which))
  | _, _ => .error .brokenPromise

def build (reg : Registry) (file : String) (lines : List Text) : Registry × Option Failure :=
  match through buildItem file (reg, .none) (Item.scanLines lines) with
  | ((reg', _), e) => (reg', e)

end Registry

end PairGrammar
