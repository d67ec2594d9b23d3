import PairGrammar.Log
import PairGrammar.Registry
import PairGrammar.Source

/-!
# Loading a rule set

A loader has sources, a registry and the name of the root. Loading reads every source twice, once
for each pass, and then seals all drafts. Between the passes the root has to be known, and at the
close no draft may be empty: that happens only if a source has changed between its two readings.

A loader that has failed keeps its registry as it was at the failure.
-/

namespace PairGrammar

structure Loader where
  sources : List Source
  root : Name := Name.output
  registry : Registry := []

namespace Loader

abbrev Pass := Registry → (file : String) → List Text → Registry × Option Failure

/-- The state behind a pass over some sources: the sources, the registry, the sources that the
pass has turned to, and the failure that ended it. -/
structure Passed where
  sources : List Source
  registry : Registry
  visited : List String := []
  failure : Option Failure := none

/-- A pass over one source, which is read for it. -/
def passSource (pass : Pass) (reg : Registry) (s : Source) : Source × Registry × Option Failure :=
  match s.read with
  | (.error f, s') => (s', reg, some f)
  | (.ok lines, s') => (s', pass reg s.name lines)

/-- A pass over sources, up to the first one that fails. -/
def passAll (pass : Pass) : Registry → List Source → Passed
  | reg, [] => ⟨[], reg, [], none⟩
  | reg, s :: ss => match passSource pass reg s with
    | (s', reg', some e) => ⟨s' :: ss, reg', [s.name], some e⟩
    | (s', reg', none) => match passAll pass reg' ss with
      | ⟨ss', reg'', visited, e⟩ => ⟨s' :: ss', reg'', s.name :: visited, e⟩

/-- A pass over the source of the given position alone. -/
def passAt (pass : Pass) (l : Loader) (i : Nat) : Option (Loader × Option Failure) :=
  l.sources[i]?.map fun s => match passSource pass l.registry s with
    | (s', reg, e) => ({ l with sources := l.sources.set i s', registry := reg }, e)

def declareAt : Loader → Nat → Option (Loader × Option Failure) := passAt Registry.declare

def buildAt : Loader → Nat → Option (Loader × Option Failure) := passAt Registry.build

/-- Seals the draft of a name. -/
def finish (l : Loader) (n : Name) : Except Failure (Variable × Loader) :=
  match l.registry.find? n with
  | none => .error (.unknownName n)
  | some d => match d.finish with
    | .error e => .error e
    | .ok (v, d') => .ok (v, { l with registry := l.registry.update d' })

/-! ### Loading -/

structure Loaded where
  result : Except Failure Grammar
  loader : Loader
  notes : List Note := []

def note (level : LogLevel) (message : String) : Note := ⟨level, "iskierka.parser", message⟩

/-- Names in the order of their characters. -/
def sortNames (ns : List Name) : List Name := ns.mergeSort Text.isUpTo

def declaredNote (reg : Registry) : Note :=
  note .debug ("Declared variables: " ++
    ", ".intercalate ((sortNames reg.names).map Text.string))

def loadedNote (g : Grammar) (sources : Nat) : Note :=
  note .info <| s!"Loaded {g.vocabulary.length} variable(s) with {g.productionCount} hash " ++
    s!"expression(s) from {sources} file(s)"

/-- What is left to do when both passes are through. -/
def complete (l : Loader) : Except Failure Grammar × Loader :=
  match List.find? (·.entries.isEmpty) l.registry with
  | some d => (.error (.ofFault (.vanishedVariable d.name)), l)
  | none => match Grammar.ofDrafts l.registry l.root with
    | (r, reg) => (r, { l with registry := reg })

def load (l : Loader) : Loaded :=
  match passAll Registry.declare l.registry l.sources with
  | ⟨sources, reg, visited, e⟩ =>
    let l := { l with sources := sources, registry := reg }
    let notes := visited.map fun s => note .debug s!"Declaration pass over {s}"
    match e with
    | some e => ⟨.error e, l, notes⟩
    | none =>
      if !reg.declares l.root then ⟨.error (.ofFault (.rootNotFound l.root)), l, notes⟩
      else
        let notes := notes ++ [declaredNote reg]
        match passAll Registry.build reg sources with
        | ⟨sources, reg, visited, e⟩ =>
          let l := { l with sources := sources, registry := reg }
          let notes := notes ++ visited.map fun s => note .debug s!"Build pass over {s}"
          match e with
          | some e => ⟨.error e, l, notes⟩
          | none => match complete l with
            | (.error e, l) => ⟨.error e, l, notes⟩
            | (.ok g, l) => ⟨.ok g, l, notes ++ [loadedNote g sources.length]⟩

end Loader

/-- The grammar that sources define. -/
def loadRules (sources : List Source) (root : Name := Name.output) : Except Failure Grammar :=
  (Loader.load { sources := sources, root := root }).result

/-- The grammar that a text defines. -/
def loadText (t : Text) (root : Name := Name.output) : Except Failure Grammar :=
  loadRules [.ofText t] root

end PairGrammar
