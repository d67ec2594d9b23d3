import PairGrammar.Proofs.Cli.Sessions
import PairGrammar.Proofs.Config.Precedence
import PairGrammar.Proofs.Files.RuleFile
import PairGrammar.Proofs.Files.Writing

/-!
# What the command `generate` reports

The command `generate` writes what the generator answers: the pairs to the output, a warning for
each answer that is none, and it fails if there are only warnings. Rules that are refused leave the
output as it is.

* `rank_of_mem_notes`: loading leaves no notes but those of the levels `DEBUG` and `INFO`.
* `run_sessionOf`: the session that options ask for.
* `startSession_of_ok`, `startSession_of_error`: what loading leads to.
* `generate_reports`: the whole command.
-/

namespace PairGrammar

/-! ### Notes of loading -/

theorem Loader.rank_of_mem_notes (l : Loader) :
    ∀ n ∈ l.load.notes, n.level.rank ≤ LogLevel.info.rank := by
  have hpass (message : String → String) (visited : List String) :
      ∀ n ∈ visited.map fun s => note .debug (message s), n.level.rank ≤ LogLevel.info.rank := by
    intro n hn
    obtain ⟨s, -, rfl⟩ := List.mem_map.1 hn
    exact Nat.zero_le _
  have hpasses (message message' : String → String) (reg : Registry)
      (visited visited' : List String) :
      ∀ n ∈ (visited.map fun s => note .debug (message s)) ++ [declaredNote reg] ++
        visited'.map fun s => note .debug (message' s), n.level.rank ≤ LogLevel.info.rank :=
    List.forall_mem_append.2 ⟨List.forall_mem_append.2
      ⟨hpass message visited, List.forall_mem_singleton.2 (Nat.zero_le _)⟩, hpass message' visited'⟩
  unfold load
  split
  dsimp only
  split
  · exact hpass _ _
  · split
    · exact hpass _ _
    · split
      · exact hpasses _ _ _ _ _
      · split
        · exact hpasses _ _ _ _ _
        · exact List.forall_mem_append.2
            ⟨hpasses _ _ _ _ _, List.forall_mem_singleton.2 (Nat.le_refl _)⟩

theorem FileTree.rank_of_mem_notes (t : FileTree) (folder : String) (root : Name) :
    ∀ n ∈ (t.loadRules folder root).2, n.level.rank ≤ LogLevel.info.rank := by
  have hfound : ∀ n ∈ t.foundNotes folder, n.level.rank ≤ LogLevel.info.rank := by
    unfold foundNotes
    split
    · exact List.forall_mem_nil _
    · exact List.forall_mem_singleton.2 (Nat.zero_le _)
  unfold loadRules
  split
  · dsimp only
    exact hfound
  · exact List.forall_mem_append.2 ⟨hfound, Loader.rank_of_mem_notes _⟩

namespace Cli

/-- The output file that options name. An empty name is none. -/
def GenerateOptions.file? (o : GenerateOptions) : Option String := o.outputFile.filter (· ≠ "")

/-- Options that ask for a number of pairs with a limit, and perhaps with a seed. -/
structure GenerateOptions.AsksFor (o : GenerateOptions) (n : Nat) (limit : Amount)
    (seed : Option Amount) : Prop where
  count_eq : o.count = .value (.integer n)
  count_pos : 0 < n
  limit_eq : o.limit = .value limit
  limit_pos : ¬ limit.isAtMostZero
  seed_eq : o.seed = seed.map .value

/-- The generator for rules that have been loaded. -/
def loadedGenerator (w : World) (g : Grammar) (limit : Amount) (seed : Option Amount) :
    Generator Twister :=
  .ofGrammar g (Twister.ofSeed (seed.elim w.seed Amount.seed)) limit.ceiling

/-- The session that options ask for. -/
def sessionOf (o : GenerateOptions) (n : Nat) (limit : Amount) (level : Option LogLevel)
    (g : Generator Twister) : Session :=
  { generator := g, quota := .left n, count := .integer n, limit := limit, format := o.format
    toFile := o.file?.isSome, logLevel := level }

variable {w : World} {o : GenerateOptions} {n most : Nat} {limit : Amount} {seed : Option Amount}
  {level : Option LogLevel} {g : Grammar}

/-! ### The session -/

variable (w o limit seed) in
/-- What a session writes and how it ends, in terms of the answers of its generator. -/
theorem run_sessionOf (hn : 0 < n) (hmost : n ≤ most) (hg : g.IsClosed)
    (hlevel : HidesNotes level) :
    let rs := (loadedGenerator w g limit seed).calls n
    ∃ es, (sessionOf o n limit level (loadedGenerator w g limit seed)).run none most =
        (es, if ∀ r ∈ rs, r.pair? = none then 1 else 0) ∧
      outText es = (if o.file?.isSome then "" else pairsText o.format rs) ∧
      fileText es = (if o.file?.isSome then pairsText o.format rs else "") ∧
      errText es = warningsText limit rs := by
  intro rs
  let s := sessionOf o n limit level (loadedGenerator w g limit seed)
  have hlength : rs.length = n := Generator.length_calls _ n
  have hpieces : ∀ r ∈ rs, s.emissions r = [s.piece r] := by
    intro r hr
    obtain ⟨o, rfl, ho⟩ := Generator.exists_of_mem_calls rfl hg hr
    exact Session.emissions_eq hlevel ho
  have hcode : { s with failures := s.failures + rs.countP (·.pair?.isNone) : Session }.code =
      if ∀ r ∈ rs, r.pair? = none then 1 else 0 :=
    Session.code_of_countP (by omega) (by rw [hlength]; rfl) (Nat.zero_add _)
  refine ⟨rs.flatMap s.emissions, ?_, Session.outText_emissions hpieces,
    Session.fileText_emissions hpieces, Session.errText_emissions hpieces⟩
  rw [← hcode]
  exact Session.run_left hmost rfl

/-! ### Opening the session -/

theorem quota_integer (hn : 0 < n) : (Amount.integer n).quota = .left n := by
  have hpos : ¬ (Amount.integer n).isAtMostZero := by
    rw [Amount.isAtMostZero, decide_eq_true_iff]
    omega
  unfold Amount.quota
  rw [if_neg hpos]
  rfl

theorem startSession_of_ok (h : (w.tree.loadRules o.directory).1 = .ok g)
    (hlevel : HidesNotes level) :
    startSession w o limit (seed.elim w.seed Amount.seed) level =
      openSession w o limit level (loadedGenerator w g limit seed) [] := by
  have hnotes : logLines level (w.tree.loadRules o.directory).2 = [] :=
    logLines_eq_nil hlevel (w.tree.rank_of_mem_notes o.directory _)
  unfold startSession
  cases hload : w.tree.loadRules o.directory with
  | mk loaded notes =>
    rw [hload] at h hnotes
    obtain rfl : loaded = .ok g := h
    dsimp only at hnotes ⊢
    rw [hnotes]
    rfl

theorem startSession_of_error {e : LoadError} {seed : Nat}
    (h : (w.tree.loadRules o.directory).1 = .error (.load e)) :
    startSession w o limit seed level = leave w dataCode
      (logLines level (w.tree.loadRules o.directory).2 ++
        if o.quiet then [] else [errorLine "generate" e.text]) := by
  unfold startSession
  cases hload : w.tree.loadRules o.directory with
  | mk loaded notes =>
    rw [hload] at h
    obtain rfl : loaded = .error (.load e) := h
    rfl

/-- The output file is opened, if there is one. -/
theorem openSession_eq (ho : o.AsksFor n limit seed) (g : Generator Twister) (es : List Emission) :
    openSession w o limit level g es =
      match o.file? with
      | none => .session es (sessionOf o n limit level g) w.tree none
      | some p => match w.tree.write p .empty with
        | .error e => crash w (.failure (.path p e)) es
        | .ok t => .session es (sessionOf o n limit level g) t (some p) := by
  rw [sessionOf, ← quota_integer ho.count_pos, openSession, ho.count_eq, GenerateOptions.file?]
  cases o.outputFile.filter (· ≠ "") with
  | none => rfl
  | some p =>
    dsimp only
    cases w.tree.write p .empty <;> rfl

theorem runCommand_generate (ho : o.AsksFor n limit seed) (hfolder : w.tree.isFolder o.directory)
    (hlevel : logLevel o.logLevel = .ok level) :
    runCommand w (.generate o) =
      startSession w o limit (seed.elim w.seed Amount.seed) level := by
  have hthere : ¬ (!w.tree.isFolder o.directory) = true := by
    rw [hfolder]
    exact Bool.false_ne_true
  rw [runCommand]
  dsimp only
  rw [hlevel]
  dsimp only
  rw [runGenerate, if_neg hthere, ho.limit_eq, ho.seed_eq]
  dsimp only
  rw [if_neg ho.limit_pos]
  cases seed with
  | none => dsimp only [Option.map_none, Option.elim_none]
  | some a => dsimp only [Option.map_some, Option.elim_some]

/-- A command line that asks for a command runs it. -/
theorem run_of_readRequest {ts : ConfigTexts} {config : Config} {args : List String} {c : Command}
    (hts : w.configurations = .ok ts) (hconfig : loadConfig w.decode ts = .ok config)
    (hargs : readRequest config args = .ok (.command c)) (interrupt : Option Nat) (most : Nat) :
    run w interrupt most args = (runCommand w c).report interrupt most := by
  have hfor : configFor w "generate" = .ok config := by
    rw [configFor, hts]
    dsimp only
    rw [hconfig]
  rw [run, start, hfor]
  dsimp only
  rw [hargs]

/-! ### The whole command -/

/-- What goes to another output than the standard error output. -/
theorem textTo_eq_empty {which : Emission → Option String} (hwhich : ∀ s, which (.err s) = none)
    {es : List Emission} (h : ∀ e ∈ es, ∃ s, e = .err s) : textTo which es = "" := by
  have hnone : es.filterMap which = [] := by
    refine List.filterMap_eq_nil_iff.2 fun e he => ?_
    obtain ⟨s, rfl⟩ := h e he
    exact hwhich s
  rw [textTo, hnone]
  rfl

theorem forall_logLines (level : Option LogLevel) (notes : List Note) :
    ∀ e ∈ logLines level notes, ∃ s, e = .err s := by
  cases level with
  | none => exact List.forall_mem_nil _
  | some l =>
    intro e he
    obtain ⟨n, -, rfl⟩ := List.mem_map.1 he
    exact ⟨_, rfl⟩

/-- A report on answers of a generator. The written pairs are the output, in their order: the
standard output, or the whole of the output file. For each other answer there is a warning on the
standard error output, and nothing else there. The run has failed if there are only warnings. -/
structure Report.IsOn (report : Report) (w : World) (o : GenerateOptions) (limit : Amount)
    (rs : List Generated) : Prop where
  warnings : errText report.emitted = warningsText limit rs
  ending : report.ending = .exit (if ∀ r ∈ rs, r.pair? = none then 1 else 0)
  output : o.file? = none → outText report.emitted = pairsText o.format rs ∧ report.tree = w.tree
  outputFile : ∀ p, o.file? = some p → outText report.emitted = "" ∧
    w.tree.write p (pairsText o.format rs).toUTF8 = .ok report.tree ∧
    report.tree.bytes p = .ok (pairsText o.format rs).toUTF8

/-- What the session of rules that have been loaded reports. The output file is empty when the
session begins, and is written as a whole when it ends. -/
theorem report_of_ok (ho : o.AsksFor n limit seed) (hmost : n ≤ most)
    (hload : (w.tree.loadRules o.directory).1 = .ok g) (hlevel : HidesNotes level)
    (hfile : ∀ p, o.file? = some p → ∃ t, w.tree.write p .empty = .ok t) :
    ((startSession w o limit (seed.elim w.seed Amount.seed) level).report none most).IsOn w o limit
      ((loadedGenerator w g limit seed).calls n) := by
  have hclosed : g.IsClosed := by
    obtain ⟨ss, hss⟩ := FileTree.exists_loadRules hload
    exact isClosed_of_loadRules hss
  obtain ⟨es, hrun, hout, hfileText, herr⟩ :=
    run_sessionOf w o limit seed ho.count_pos hmost hclosed hlevel
  rw [startSession_of_ok hload hlevel, openSession_eq ho]
  cases hnone : o.file? with
  | none =>
    dsimp only [Course.report]
    rw [hnone] at hout
    rw [hrun]
    refine ⟨herr, rfl, fun _ => ⟨hout, rfl⟩, fun p hp => ?_⟩
    rw [hnone] at hp
    cases hp
  | some p =>
    obtain ⟨t, ht⟩ := hfile p hnone
    obtain ⟨t', ht'⟩ := FileTree.exists_write ht (pairsText o.format
      ((loadedGenerator w g limit seed).calls n)).toUTF8
    rw [hnone] at hout hfileText
    dsimp only [Option.isSome_some] at hout hfileText
    dsimp only
    rw [ht]
    dsimp only [Course.report]
    rw [hrun]
    dsimp only
    rw [hfileText, if_pos rfl, FileTree.write_of_write ht, ht']
    refine ⟨herr, rfl, fun hp => ?_, fun q hq => ?_⟩
    · rw [hnone] at hp
      cases hp
    · rw [hnone] at hq
      cases hq
      exact ⟨hout, ht', FileTree.bytes_of_write ht'⟩

/-- The command `generate`, asked for some number of pairs with a positive limit, and so every
command line that is read as this command. If the rules of the folder are loaded, the output file
can be opened, and the log hides the notes, the report is on the answers of the generator to that
many requests, each of which is a pair or leaves a warning. If the rules are refused, the exit code
says so, nothing is written to the output, and no file is touched. -/
theorem generate_reports (ho : o.AsksFor n limit seed) (hmost : n ≤ most)
    (hfolder : w.tree.isFolder o.directory) (hlevel : logLevel o.logLevel = .ok level) :
    let report := (runCommand w (.generate o)).report none most
    (∀ ts config args, w.configurations = .ok ts → loadConfig w.decode ts = .ok config →
      readRequest config args = .ok (.command (.generate o)) → run w none most args = report) ∧
    (∀ g, (w.tree.loadRules o.directory).1 = .ok g → HidesNotes level →
      (∀ p, o.file? = some p → ∃ t, w.tree.write p .empty = .ok t) →
      let rs := (loadedGenerator w g limit seed).calls n
      report.IsOn w o limit rs ∧
        (rs.filterMap Generated.pair?).length + (rs.filter (·.pair?.isNone)).length = n) ∧
    (∀ e, (w.tree.loadRules o.directory).1 = .error (.load e) →
      report.ending = .exit 65 ∧ outText report.emitted = "" ∧ fileText report.emitted = "" ∧
        report.tree = w.tree) := by
  intro report
  have hreport : report =
      (startSession w o limit (seed.elim w.seed Amount.seed) level).report none most := by
    rw [← runCommand_generate ho hfolder hlevel]
  refine ⟨fun ts config args hts hconfig hargs => ?_, ?_, ?_⟩
  · exact run_of_readRequest hts hconfig hargs none most
  · intro g hload hhides hfile rs
    refine ⟨?_, ?_⟩
    · rw [hreport]
      exact report_of_ok ho hmost hload hhides hfile
    · rw [length_pairs_add_length_warnings]
      exact Generator.length_calls _ n
  · intro e hload
    have herr : ∀ m ∈ logLines level (w.tree.loadRules o.directory).2 ++
        (if o.quiet then [] else [errorLine "generate" e.text]), ∃ s, m = .err s := by
      intro m hm
      rcases List.mem_append.1 hm with hm | hm
      · exact forall_logLines level _ m hm
      · split at hm
        · cases hm
        · exact ⟨_, List.mem_singleton.1 hm⟩
    rw [hreport, startSession_of_error hload]
    exact ⟨rfl, textTo_eq_empty (fun _ => rfl) herr, textTo_eq_empty (fun _ => rfl) herr, rfl⟩

/-- A text that stands one level below the root. -/
def stepped : Grammar where
  vocabulary := [
    ⟨Name.output, [(⟨[.reference ['w']], [.literal ['5']]⟩, 1)], List.cons_ne_nil _ _⟩,
    ⟨['w'], [(⟨[.literal ['q']], [.literal ['r']]⟩, 1)], List.cons_ne_nil _ _⟩]
  root := Name.output
  root_mem := ⟨_, List.mem_cons_self, rfl⟩

/-- Options for two pairs. -/
def twoPairs (directory : String) (limit : Int) (file : Option String) : GenerateOptions where
  directory := directory
  count := .value (.integer 2)
  limit := .value (.integer limit)
  seed := some (.value (.integer 7))
  format := .plain
  outputFile := file
  quiet := false
  logLevel := some (.text "WARNING")

theorem twoPairs_asksFor (directory : String) {limit : Int} (hlimit : 0 < limit)
    (file : Option String) :
    (twoPairs directory limit file).AsksFor 2 (.integer limit) (some (.integer 7)) where
  count_eq := rfl
  count_pos := Nat.two_pos
  limit_eq := rfl
  limit_pos := by
    rw [Amount.isAtMostZero, decide_eq_true_iff]
    omega
  seed_eq := rfl

/-- The configuration if there is no text but the bundled one. -/
def bundledConfig : Config := [
  ("default", [("--log-level", .text "WARNING")]),
  ("generate", [("--num-pairs", .integer 10), ("--level-limit", .integer 2048),
    ("--format", .text "text")]),
  ("create", [("--output-dir", .text "."), ("--base-name", .text "output")])]

theorem loadConfig_bundled : loadConfig (decoderOf []) {} = .ok bundledConfig := by
  have hs : DecodesTo (decoderOf []) {} { bundled := tableOf bundledCommands } :=
    ⟨rfl, rfl, rfl, decoderOf_bundled []⟩
  have hconfig : Config.ofTables [tableOf bundledCommands] = .ok bundledConfig := by
    decide +kernel
  exact (loadConfig_of_decodesTo hs).trans hconfig

/-- Rules that need two levels. With one level, two requests leave two warnings, and the run of a
command line that asks for this fails; with two levels, their pairs take the place of an old file.
From a folder without rule files nothing is loaded, and the old file stays. -/
theorem generate_reports_levels :
    let rules : Text := "#output\n_w\n5\n#w\nq\nr".toList
    let w : World := ⟨⟨[(["rules"], .folder), (["empty"], .folder),
      (["rules", "a.iski"], .file rules.string.toUTF8), (["old.txt"], .file "old".toUTF8)]⟩,
      decoderOf [], .ok {}, 0⟩
    let report := fun o => (runCommand w (.generate o)).report none 2
    let args := ["generate", "rules", "-n", "2", "-r", "1", "-s", "7"]
    ((run w none 2 args).ending = .exit 1 ∧ outText (run w none 2 args).emitted = "" ∧
      errText (run w none 2 args).emitted =
        limitWarning (.integer 1) ++ limitWarning (.integer 1)) ∧
    ((report (twoPairs "rules" 2 (some "old.txt"))).ending = .exit 0 ∧
      (report (twoPairs "rules" 2 (some "old.txt"))).tree.bytes "old.txt" =
        .ok "q\n5\n\nq\n5\n\n".toUTF8) ∧
    (report (twoPairs "empty" 1 (some "old.txt"))).ending = .exit 65 ∧
      (report (twoPairs "empty" 1 (some "old.txt"))).tree = w.tree := by
  intro rules w report args
  have hload : (w.tree.loadRules "rules").1 = .ok stepped := by
    have hrules : (loadText rules).map (fun g => (g.vocabulary, g.root)) =
        .ok (stepped.vocabulary, stepped.root) := by decide +kernel
    obtain ⟨⟨vocabulary, root, hroot⟩, hgrammar, hsame⟩ := Piece.map_eq_ok hrules
    cases hsame
    let path : Path := ⟨0, ["rules", "a.iski"]⟩
    have hfile : w.tree.listRules "rules" = .ok [path] := by decide +kernel
    have hplace : w.tree.place path.string = .ok path.names := by decide +kernel
    have hbytes : w.tree.bytes path.string = .ok rules.string.toUTF8 :=
      FileTree.bytes_of_place hplace rfl
    rw [FileTree.loadRules_of_file hfile hbytes (.of_tails (by decide +kernel)), hgrammar]
    rfl
  have hempty : (w.tree.loadRules "empty").1 =
      .error (.load ⟨.noRuleFiles ruleExtension "empty", none, none⟩) := by
    have hlist : w.tree.listRules "empty" = .ok [] := by decide +kernel
    unfold FileTree.loadRules FileTree.findRules
    rw [hlist]
    rfl
  have hwrite : ∃ t, w.tree.write "old.txt" .empty = .ok t :=
    ⟨_, FileTree.write_eq_ok_iff.2 ⟨["old.txt"], by decide +kernel, rfl⟩⟩
  have hhides : HidesNotes (some .warning) := by
    rintro l ⟨⟩
    exact Nat.lt_succ_self 1
  have hlevel : logLevel (some (.text "WARNING")) = .ok (some .warning) := rfl
  have hrules : w.tree.isFolder "rules" := by decide +kernel
  have hnone : w.tree.isFolder "empty" := by decide +kernel
  have hone : (loadedGenerator w stepped (.integer 1) (some (.integer 7))).calls 2 =
      List.replicate 2 (.evaluated (.limitReached 1 ['w'])) := by decide +kernel
  have htwo : (loadedGenerator w stepped (.integer 2) (some (.integer 7))).calls 2 =
      List.replicate 2 (.evaluated (.pair ⟨['q'], ['5']⟩)) := by decide +kernel
  have hargs : readRequest bundledConfig args =
      .ok (.command (.generate (twoPairs "rules" 1 none))) := by with_unfolding_all rfl
  obtain ⟨hrun, hreported, -⟩ := generate_reports (twoPairs_asksFor "rules" Int.one_pos none)
    (Nat.le_refl 2) hrules hlevel
  obtain ⟨hwarned, -⟩ := hreported stepped hload hhides (fun p hp => by cases hp)
  obtain ⟨hwritten, -⟩ := (generate_reports
    (twoPairs_asksFor "rules" (by decide : (0 : Int) < 2) (some "old.txt")) (Nat.le_refl 2)
    hrules hlevel).2.1 stepped hload hhides (fun p hp => by cases hp; exact hwrite)
  obtain ⟨hcode, -, -, htree⟩ := (generate_reports
    (twoPairs_asksFor "empty" Int.one_pos (some "old.txt")) (Nat.le_refl 2) hnone
    hlevel).2.2 _ hempty
  rw [hone] at hwarned
  rw [htwo] at hwritten
  rw [hrun {} bundledConfig args rfl loadConfig_bundled hargs]
  refine ⟨⟨hwarned.ending, (hwarned.output rfl).1, ?_⟩, ⟨hwritten.ending, ?_⟩, hcode, htree⟩
  · exact hwarned.warnings
  · exact (hwritten.outputFile _ rfl).2.2

end Cli

end PairGrammar
