import PairGrammar.Cli.Amount
import PairGrammar.Pair.Format
import PairGrammar.Random.Twister

/-!
# Sessions of the command `generate`

A session makes the requests that a user has asked for, one after the other. A pair is written to
the output, which is a file or the standard output, and a request without a pair leaves a warning.
The session has failed in the end if all requests have.

The standard output may be interrupted behind some number of pairs; the session then ends at once
and has not failed.
-/

namespace PairGrammar.Cli

/-- A piece of what a command writes. -/
inductive Emission
  | out (s : String)
  | err (s : String)
  | file (s : String)
  deriving DecidableEq, Repr

structure Session where
  generator : Generator Twister
  quota : Quota
  count : Amount
  limit : Amount
  format : PairFormat
  toFile : Bool
  logLevel : Option LogLevel
  failures : Nat := 0
  printed : Nat := 0

/-- The lines of the notes that a log shows. A log without a level shows none. -/
def logLines (level : Option LogLevel) (notes : List Note) : List Emission :=
  match level with
  | none => []
  | some l => (notes.filter (Note.isShown l)).map fun n => .err (n.line ++ "\n")

namespace Session

/-- The limit is reported as it was given. -/
def trouble (s : Session) : Generated → String
  | .evaluated (.limitReached _ _) => limitTrouble s.limit.string
  | r => r.trouble.getD ""

/-- A limit that is no number leaves no note. -/
def notes (s : Session) : Generated → List Note
  | .evaluated (.limitReached _ n) => (s.limit.truncated?.map (limitNote · n)).toList
  | _ => []

/-- What is written for the answer to one request. -/
def emissions (s : Session) (r : Generated) : List Emission :=
  match r.pair? with
  | some p =>
    let line := (p.format s.format).string ++ "\n"
    [if s.toFile then .file line else .out line]
  | none => logLines s.logLevel (s.notes r) ++
    [.err s!"iskierka generate: warning: {s.trouble r}\n"]

/-- One request, if one is left. -/
def advance (s : Session) : Option (List Emission × Session) :=
  (s.generator.advance s.quota).map fun (r, quota, generator) =>
    (s.emissions r, { s with
      quota := quota
      generator := generator
      failures := if r.pair?.isSome then s.failures else s.failures + 1
      printed := if r.pair?.isSome && !s.toFile then s.printed + 1 else s.printed })

/-- The exit code when no request is left. -/
def code (s : Session) : Nat := if s.failures ≠ 0 ∧ s.count.isCount s.failures then 1 else 0

/-- What a session writes, and its exit code. It is interrupted when `interrupt` pairs have been
printed, and it makes at most `most` requests. -/
def run (interrupt : Option Nat) : (most : Nat) → Session → List Emission × Nat
  | 0, s => ([], s.code)
  | k + 1, s => match s.advance with
    | none => ([], s.code)
    | some (es, s') =>
      if s.printed < s'.printed ∧ interrupt = some s'.printed then (es, 0)
      else match run interrupt k s' with
        | (fs, code) => (es ++ fs, code)

end Session

end PairGrammar.Cli
