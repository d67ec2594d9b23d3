import Mathlib.Data.List.Basic
import PairGrammar.Cli.Run
import PairGrammar.Proofs.Generator.History

/-!
# What a session writes

A session makes its requests one after the other. Each answer leaves one piece of output, a written
pair or a warning, where the log shows no notes; so the output can be told from the answers of the
generator alone, and so can the exit code.

* `Session.advance_left`: one request.
* `Session.run_left`: all requests that are left.
* `outText_emissions`, `fileText_emissions`, `errText_emissions`: what goes where.
-/

namespace PairGrammar

namespace Generator

variable {ρ : Type} [Dice ρ]

/-- The answers to requests that are made one after the other. -/
def calls (g : Generator ρ) : (k : Nat) → List Generated
  | 0 => []
  | k + 1 => g.next.1 :: g.next.2.calls k

theorem length_calls (g : Generator ρ) (k : Nat) : (g.calls k).length = k := by
  induction k generalizing g with
  | zero => rfl
  | succ k ih => rw [calls, List.length_cons, ih]

/-- Each answer of a generator with a grammar is a pair or the limit. -/
theorem exists_of_mem_calls {g : Generator ρ} {grammar : Grammar} (hg : g.grammar = some grammar)
    (hclosed : grammar.IsClosed) {k : Nat} {r : Generated} (hr : r ∈ g.calls k) :
    ∃ o, r = .evaluated o ∧ Outcome.EndsWithin g.limit o := by
  induction k generalizing g with
  | zero => cases hr
  | succ k ih =>
    rcases List.mem_cons.1 hr with rfl | hr
    · rw [next, hg]
      exact ⟨_, rfl, outcome_of_isClosed hclosed grammar.isSome_find?_root _ _⟩
    · rw [g.next_snd] at hr
      exact @ih { g with dice := g.next.2.dice } hg hr

end Generator

namespace Cli

/-! ### Answers -/

/-- The written pairs among answers, each with a line feed behind it. -/
def pairsText (format : PairFormat) (rs : List Generated) : String :=
  String.join ((rs.filterMap Generated.pair?).map fun p => (p.format format).string ++ "\n")

/-- The warning about a limit that has been reached. -/
def limitWarning (limit : Amount) : String :=
  s!"iskierka generate: warning: {limitTrouble limit.string}\n"

/-- One warning for each answer without a pair. -/
def warningsText (limit : Amount) (rs : List Generated) : String :=
  String.join ((rs.filter (·.pair?.isNone)).map fun _ => limitWarning limit)

section

variable {f : Generated → Option String}

theorem join_nothing (h : ∀ r, f r = none) {rs : List Generated} :
    String.join (rs.filterMap f) = "" := by
  rw [List.filterMap_eq_nil_iff.2 fun r _ => h r]
  rfl

theorem join_pairs {format : PairFormat}
    (h : ∀ r, f r = r.pair?.map fun p => (p.format format).string ++ "\n") {rs : List Generated} :
    String.join (rs.filterMap f) = pairsText format rs := by
  rw [pairsText, List.map_filterMap, funext h]

theorem join_warnings {limit : Amount}
    (h : ∀ r, f r = if r.pair?.isNone then some (limitWarning limit) else none)
    {rs : List Generated} : String.join (rs.filterMap f) = warningsText limit rs := by
  rw [warningsText, ← List.filterMap_eq_map, List.filterMap_filter, funext h]
  rfl

end

theorem length_pairs_add_length_warnings (rs : List Generated) :
    (rs.filterMap Generated.pair?).length + (rs.filter (·.pair?.isNone)).length = rs.length := by
  induction rs with
  | nil => rfl
  | cons r rs ih =>
    rw [List.filterMap_cons, List.filter_cons, List.length_cons, ← ih]
    cases r.pair? with
    | none => exact (Nat.add_assoc ..).symm
    | some p => exact Nat.add_right_comm ..

/-! ### Notes that are not shown -/

/-- A level at which the log shows no notes of the levels `DEBUG` and `INFO`. -/
def HidesNotes (level : Option LogLevel) : Prop := ∀ l ∈ level, LogLevel.info.rank < l.rank

theorem logLines_eq_nil {level : Option LogLevel} {notes : List Note} (hlevel : HidesNotes level)
    (hnotes : ∀ n ∈ notes, n.level.rank ≤ LogLevel.info.rank) : logLines level notes = [] := by
  cases level with
  | none => rfl
  | some l =>
    have hnone : notes.filter (Note.isShown l) = [] := by
      refine List.filter_eq_nil_iff.2 fun n hn hshown => ?_
      have hle := hnotes n hn
      have hlt := hlevel l rfl
      have hshown := of_decide_eq_true hshown
      omega
    rw [logLines, hnone]
    rfl

namespace Session

/-! ### Requests -/

/-- A session behind one request, with a number of requests that are left. -/
def behind (s : Session) (k : Nat) : Session :=
  { s with
    quota := .left k
    generator := s.generator.next.2
    failures := if s.generator.next.1.pair?.isSome then s.failures else s.failures + 1
    printed := if s.generator.next.1.pair?.isSome && !s.toFile then s.printed + 1 else s.printed }

theorem advance_left {s : Session} {k : Nat} (h : s.quota = .left (k + 1)) :
    s.advance = some (s.emissions s.generator.next.1, s.behind k) := by
  rw [advance, Generator.advance, h]
  rfl

theorem advance_eq_none {s : Session} (h : s.quota = .left 0) : s.advance = none := by
  rw [advance, Generator.advance, h]
  rfl

/-- A session without interruption writes something for every answer, and counts the answers without
a pair. -/
theorem run_left {s : Session} {k most : Nat} (hk : k ≤ most) (h : s.quota = .left k) :
    s.run none most = ((s.generator.calls k).flatMap s.emissions,
      { s with failures := s.failures +
          (s.generator.calls k).countP (·.pair?.isNone) : Session }.code) := by
  induction most generalizing s k with
  | zero =>
    obtain rfl := Nat.le_zero.1 hk
    rfl
  | succ most ih =>
    cases k with
    | zero =>
      rw [run, advance_eq_none h]
      rfl
    | succ k =>
      have hrun := @ih (s.behind k) k (Nat.le_of_succ_le_succ hk) rfl
      rw [run, advance_left h]
      dsimp only
      rw [if_neg (fun hstop => Option.some_ne_none _ hstop.2.symm), hrun]
      have hcount : (s.behind k).failures + (s.generator.next.2.calls k).countP (·.pair?.isNone) =
          s.failures + (s.generator.calls (k + 1)).countP (·.pair?.isNone) := by
        rw [Generator.calls, List.countP_cons, behind]
        cases s.generator.next.1.pair? with
        | none => exact Nat.add_right_comm ..
        | some p => rfl
      have hcode : { s.behind k with failures := (s.behind k).failures +
            ((s.behind k).generator.calls k).countP (·.pair?.isNone) : Session }.code =
          { s with failures := s.failures +
            (s.generator.calls (k + 1)).countP (·.pair?.isNone) : Session }.code := by
        rw [← hcount]
        rfl
      rw [hcode]
      rfl

theorem code_of_countP {s : Session} {rs : List Generated} (hrs : 0 < rs.length)
    (hcount : s.count = .integer rs.length) (hfailures : s.failures = rs.countP (·.pair?.isNone)) :
    s.code = if ∀ r ∈ rs, r.pair? = none then 1 else 0 := by
  have hall : (rs.countP fun r => r.pair?.isNone) = rs.length ↔ ∀ r ∈ rs, r.pair? = none := by
    rw [List.countP_eq_length]
    exact forall₂_congr fun r _ => Option.isNone_iff_eq_none
  have hcode : (s.failures ≠ 0 ∧ s.count.isCount s.failures) ↔ ∀ r ∈ rs, r.pair? = none := by
    rw [← hall, hcount, hfailures, Amount.isCount, decide_eq_true_iff]
    omega
  rw [code]
  exact if_congr hcode rfl rfl

/-! ### Output -/

variable {s : Session} {rs : List Generated} {r : Generated} {limit : Int}

/-- The piece of output for an answer, where no notes are shown. -/
def piece (s : Session) (r : Generated) : Emission :=
  match r.pair? with
  | some p => if s.toFile then .file ((p.format s.format).string ++ "\n")
    else .out ((p.format s.format).string ++ "\n")
  | none => .err (limitWarning s.limit)

theorem emissions_eq (hlevel : HidesNotes s.logLevel) {o : Outcome} (ho : o.EndsWithin limit) :
    s.emissions (.evaluated o) = [s.piece (.evaluated o)] := by
  rcases ho with ⟨p, rfl⟩ | ⟨n, rfl⟩
  · rfl
  · have hnotes : ∀ m ∈ s.notes (.evaluated (.limitReached limit n)),
        m.level.rank ≤ LogLevel.info.rank := by
      intro m hm
      obtain ⟨l, -, rfl⟩ := Option.map_eq_some_iff.1 (Option.mem_toList.1 hm)
      exact Nat.zero_le _
    show logLines _ _ ++ _ = _
    rw [logLines_eq_nil hlevel hnotes]
    rfl

/-- What goes to one of the outputs. -/
theorem textTo_emissions (which : Emission → Option String)
    (h : ∀ r ∈ rs, s.emissions r = [s.piece r]) :
    textTo which (rs.flatMap s.emissions) =
      String.join (rs.filterMap fun r => which (s.piece r)) := by
  rw [textTo, List.flatMap_congr h, ← List.map_eq_flatMap, List.filterMap_map]
  rfl

/-- The pairs go to the output file if there is one, and to the standard output otherwise. -/
theorem outText_emissions (h : ∀ r ∈ rs, s.emissions r = [s.piece r]) :
    outText (rs.flatMap s.emissions) = if s.toFile then "" else pairsText s.format rs := by
  rw [outText, textTo_emissions _ h]
  split
  · next hfile =>
    refine join_nothing fun r => ?_
    rw [piece, hfile]
    cases r.pair? <;> rfl
  · next hfile =>
    refine join_pairs fun r => ?_
    rw [piece, eq_false_of_ne_true hfile]
    cases r.pair? <;> rfl

theorem fileText_emissions (h : ∀ r ∈ rs, s.emissions r = [s.piece r]) :
    fileText (rs.flatMap s.emissions) = if s.toFile then pairsText s.format rs else "" := by
  rw [fileText, textTo_emissions _ h]
  split
  · next hfile =>
    refine join_pairs fun r => ?_
    rw [piece, hfile]
    cases r.pair? <;> rfl
  · next hfile =>
    refine join_nothing fun r => ?_
    rw [piece, eq_false_of_ne_true hfile]
    cases r.pair? <;> rfl

/-- Each answer without a pair leaves a warning. -/
theorem errText_emissions (h : ∀ r ∈ rs, s.emissions r = [s.piece r]) :
    errText (rs.flatMap s.emissions) = warningsText s.limit rs := by
  rw [errText, textTo_emissions _ h]
  refine join_warnings fun r => ?_
  rw [piece]
  cases r.pair? with
  | none => rfl
  | some p => cases s.toFile <;> rfl

end Session

end Cli

end PairGrammar
