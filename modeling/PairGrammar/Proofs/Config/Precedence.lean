import Mathlib.Data.List.Basic
import PairGrammar.Cli.Run

/-!
# Which source a configuration value comes from

Several sources may give a value to an option, for the command itself or for all commands: a text
that is given, the file of the working folder, the file of the home folder, and the bundled text.
The first source that gives one for the command decides, whatever the others say for all commands;
where none does, the first one that gives one for all commands. A value counts also where it says
no. But every source has to be of the right form, used or not.

Nothing is assumed of the decoder but the tables that it gives for the texts.

* `Config.value?_join`: what one source adds to the ones before it.
* `Config.value?_foldl_join`: the values of all sources joined.
* `Config.exists_ofToml?_iff`: the sources that have the right form.
* `Config.exists_ofTables`, `Config.ofTables_eq_wrongForm`: the configuration of tables.
* `Cli.getDefault_of_decodesTo`: the value of an option, and what happens where there is none.
-/

namespace PairGrammar

/-! ### The form of a source -/

namespace Toml

/-- A text, an integer, a floating-point number or a truth value. -/
inductive IsPlain : Toml → Prop
  | text (t : Text) : IsPlain (.text t)
  | integer (n : Int) : IsPlain (.integer n)
  | float (x : Binary64) : IsPlain (.float x)
  | boolean (b : Bool) : IsPlain (.boolean b)

/-- A list of one table, whose values are plain. -/
inductive IsOptions : Toml → Prop
  | intro {fields : Fields} {isInline : Bool} :
      (∀ f ∈ fields, IsPlain f.2) → IsOptions (.list [.table fields isInline])

/-- What a source has under `defaults` is a table, if there is anything, and gives every command a
list of one table with plain values. -/
def HasForm (source : Fields) : Prop :=
  ∀ v, source.lookup Config.defaultsKey = some v →
    ∃ commands isInline, v = .table commands isInline ∧ ∀ c ∈ commands, IsOptions c.2

/-- The value of a table for an option. -/
def plain? (fields : Fields) (option : String) : Option Scalar :=
  fields.findSome? fun f => if f.1.string = option then Scalar.ofToml? f.2 else none

/-- The value for an option in a list of one table. -/
def option? (option : String) : Toml → Option Scalar
  | .list [.table fields _] => plain? fields option
  | _ => none

/-- The value that a source gives an option of a command. -/
def given? (source : Fields) (command option : String) : Option Scalar :=
  match source.lookup Config.defaultsKey with
  | some (.table commands _) =>
    commands.findSome? fun c => if c.1.string = command then c.2.option? option else none
  | _ => none

theorem exists_ofToml?_iff {v : Toml} : (∃ s, Scalar.ofToml? v = some s) ↔ IsPlain v := by
  constructor
  · rintro ⟨s, hs⟩
    cases v with
    | text t => exact .text t
    | integer n => exact .integer n
    | float x => exact .float x
    | boolean b => exact .boolean b
    | _ => cases hs
  · rintro ⟨⟩
    all_goals exact ⟨_, rfl⟩

end Toml

/-! ### Lists of results -/

section

variable {α β γ : Type} {f : α → Option β}

theorem exists_mapM_iff {l : List α} : (∃ bs, l.mapM f = some bs) ↔ ∀ a ∈ l, ∃ b, f a = some b := by
  induction l with
  | nil => exact iff_of_true ⟨[], rfl⟩ (List.forall_mem_nil _)
  | cons a l ih =>
    rw [List.forall_mem_cons, ← ih, List.mapM_cons]
    cases f a with
    | none => simp
    | some b =>
      cases l.mapM f with
      | none => simp
      | some bs => simp

/-- Looking for something in results is looking for it in what they come from. -/
theorem findSome?_mapM {g : β → Option γ} {h : α → Option γ}
    (hg : ∀ a b, f a = some b → g b = h a) {l : List α} {bs : List β} (hl : l.mapM f = some bs) :
    bs.findSome? g = l.findSome? h := by
  induction l generalizing bs with
  | nil =>
    cases hl
    rfl
  | cons a l ih =>
    rw [List.mapM_cons] at hl
    obtain ⟨b, hb, hl⟩ := Option.bind_eq_some_iff.1 hl
    obtain ⟨bs', hbs, hl⟩ := Option.bind_eq_some_iff.1 hl
    cases hl
    rw [List.findSome?_cons, List.findSome?_cons, hg a b hb, ih hbs]

end

namespace Config

/-! ### Joining sources -/

/-- The first value for an option of a command, wherever the command stands. -/
def first? (c : Config) (command option : String) : Option Scalar :=
  c.findSome? fun e => if e.1 = command then e.2.lookup option else none

theorem value?_foldl_give (command : String) (os : Options) (c : Config) (k o : String) :
    value? (os.foldl (fun c e => give command e.1 e.2 c) c) k o =
      (value? c k o).or (if command = k then os.lookup o else none) := by
  induction os generalizing c with
  | nil => rw [List.foldl_nil, List.lookup_nil, ite_self, Option.or_none]
  | cons e os ih =>
    obtain ⟨o', v⟩ := e
    rw [List.foldl_cons, ih, value?_give, Option.or_assoc]
    congr 1
    by_cases hk : command = k
    · by_cases ho : o = o'
      · simp [hk, ho]
      · simp [hk, ho, lookup_cons_of_ne ho]
    · simp [hk, Ne.symm hk]

theorem join_cons (c later : Config) (command : String) (os : Options) :
    join c ((command, os) :: later) = join (os.foldl (fun c e => give command e.1 e.2 c) c) later :=
  rfl

/-- A source adds the values for which there is none before it. -/
theorem value?_join (c later : Config) (k o : String) :
    value? (join c later) k o = (value? c k o).or (first? later k o) := by
  induction later generalizing c with
  | nil => exact (Option.or_none).symm
  | cons e later ih =>
    obtain ⟨command, os⟩ := e
    rw [join_cons, ih, value?_foldl_give, Option.or_assoc, first?, first?, List.findSome?_cons]
    congr 1
    cases if command = k then os.lookup o else none <;> rfl

/-- Of joined sources the first one that has a value gives it. -/
theorem value?_foldl_join (configs : List Config) (c : Config) (k o : String) :
    value? (configs.foldl join c) k o = (value? c k o).or (configs.findSome? (first? · k o)) := by
  induction configs generalizing c with
  | nil => exact (Option.or_none).symm
  | cons later configs ih =>
    rw [List.foldl_cons, ih, value?_join, Option.or_assoc, List.findSome?_cons]
    congr 1
    cases first? later k o <;> rfl

/-! ### From sources to configurations -/

open Toml (HasForm IsOptions given?)

theorem exists_options?_iff {fields : Toml.Fields} :
    (∃ os, options? fields = some os) ↔ ∀ f ∈ fields, f.2.IsPlain := by
  unfold options?
  rw [exists_mapM_iff]
  refine forall₂_congr fun f _ => ?_
  rw [← Toml.exists_ofToml?_iff]
  simp

theorem lookup_options? {fields : Toml.Fields} {os : Options} (h : options? fields = some os)
    (o : String) : os.lookup o = Toml.plain? fields o := by
  rw [List.lookup_eq_findSome?]
  refine findSome?_mapM (fun f e he => ?_) h
  obtain ⟨s, hs, rfl⟩ := Option.map_eq_some_iff.1 he
  by_cases ho : f.1.string = o
  · simp [ho, hs]
  · simp [ho, Ne.symm ho]

/-- A command that has a list of one table has the options of this table. -/
theorem command?_list (k : Text) (fields : Toml.Fields) (isInline : Bool) :
    command? (k, .list [.table fields isInline]) = (options? fields).map (k.string, ·) := rfl

theorem exists_of_command? {c : Text × Toml} {e : String × Options} (h : command? c = some e) :
    ∃ fields isInline os, c.2 = .list [.table fields isInline] ∧ options? fields = some os ∧
      e = (c.1.string, os) := by
  unfold command? at h
  split at h
  · next k fields isInline =>
    obtain ⟨os, hos, rfl⟩ := Option.map_eq_some_iff.1 h
    exact ⟨fields, isInline, os, rfl, hos, rfl⟩
  · cases h

theorem exists_command?_iff {c : Text × Toml} : (∃ e, command? c = some e) ↔ IsOptions c.2 := by
  constructor
  · rintro ⟨e, he⟩
    obtain ⟨fields, isInline, os, hc, hos, -⟩ := exists_of_command? he
    rw [hc]
    exact .intro (exists_options?_iff.1 ⟨os, hos⟩)
  · obtain ⟨k, v⟩ := c
    rintro ⟨hfields⟩
    obtain ⟨os, hos⟩ := exists_options?_iff.2 hfields
    rw [command?_list, hos]
    exact ⟨_, rfl⟩

theorem exists_ofToml?_iff {source : Toml.Fields} :
    (∃ c, ofToml? source = some c) ↔ HasForm source := by
  unfold ofToml? HasForm
  cases source.lookup defaultsKey with
  | none => simp
  | some v =>
    cases v with
    | table commands isInline =>
      refine (exists_mapM_iff (f := command?)).trans ⟨?_, ?_⟩
      · rintro h v ⟨⟩
        exact ⟨commands, isInline, rfl, fun c hc => exists_command?_iff.1 (h c hc)⟩
      · intro h c hc
        obtain ⟨_, _, htable, hoptions⟩ := h _ rfl
        cases htable
        exact exists_command?_iff.2 (hoptions c hc)
    | _ => simp

theorem first?_of_ofToml? {source : Toml.Fields} {c : Config} (h : ofToml? source = some c)
    (k o : String) : first? c k o = given? source k o := by
  unfold ofToml? at h
  unfold given?
  split at h
  · next hnone =>
    cases h
    rw [hnone]
    rfl
  · next commands isInline hsome =>
    rw [hsome]
    refine findSome?_mapM (fun a b hb => ?_) h
    obtain ⟨fields, isInline, os, ha, hos, rfl⟩ := exists_of_command? hb
    rw [ha, lookup_options? hos]
    rfl
  · cases h

/-! ### The configuration of tables -/

section

variable {sources : List Toml.Fields}

theorem exists_mapM_ofToml?_iff :
    (∃ configs, sources.mapM ofToml? = some configs) ↔ ∀ s ∈ sources, HasForm s := by
  rw [exists_mapM_iff]
  exact forall₂_congr fun s _ => exists_ofToml?_iff

/-- An option has the first value that a source gives it for its command, or else the first one that
a source gives it for all commands, or else none. -/
theorem exists_ofTables (hall : ∀ s ∈ sources, HasForm s) :
    ∃ c, ofTables sources = .ok c ∧ ∀ command option,
      c.default? command option =
        (sources.findSome? (given? · command option)).or
          (sources.findSome? (given? · "default" option)) := by
  obtain ⟨configs, hconfigs⟩ := exists_mapM_ofToml?_iff.2 hall
  have hvalue : ∀ k o, value? (configs.foldl join []) k o = sources.findSome? (given? · k o) := by
    intro k o
    rw [value?_foldl_join]
    exact findSome?_mapM (fun _ _ hs => first?_of_ofToml? hs k o) hconfigs
  refine ⟨configs.foldl join [], ?_, fun command option => ?_⟩
  · rw [ofTables, hconfigs]
  · rw [default?, hvalue, hvalue]

/-- One source of a wrong form takes all values away. -/
theorem ofTables_eq_wrongForm (hwrong : ∃ s ∈ sources, ¬ HasForm s) :
    ofTables sources = .error .wrongForm := by
  have hnone : sources.mapM ofToml? = none := by
    refine Option.eq_none_iff_forall_ne_some.2 fun configs hconfigs => ?_
    obtain ⟨s, hs, hnot⟩ := hwrong
    exact hnot (exists_mapM_ofToml?_iff.1 ⟨configs, hconfigs⟩ s hs)
  rw [ofTables, hnone]

end

end Config

/-! ### The value of an option -/

/-- The tables of the texts that a configuration is read from, as far as these are there. The
bundled one always is. -/
structure ConfigTables where
  given : Option Toml.Fields := none
  here : Option Toml.Fields := none
  home : Option Toml.Fields := none
  bundled : Toml.Fields

/-- The tables in the order in which they hold. -/
def ConfigTables.inOrder (s : ConfigTables) : List Toml.Fields :=
  s.given.toList ++ s.here.toList ++ s.home.toList ++ [s.bundled]

namespace Cli

open Toml (HasForm given?)

/-- A decoder gives these tables for texts and for the bundled text. -/
structure DecodesTo (decode : Toml.Decoder) (ts : ConfigTexts) (s : ConfigTables) : Prop where
  given : ts.given.map decode = s.given.map .ok
  here : ts.here.map decode = s.here.map .ok
  home : ts.home.map decode = s.home.map .ok
  bundled : decode configuration.toList = .ok s.bundled

theorem mapM_toList {decode : Toml.Decoder} {t : Option Text} {s : Option Toml.Fields}
    (h : t.map decode = s.map .ok) : t.toList.mapM decode = .ok s.toList := by
  cases t with
  | none =>
    cases s with
    | none => rfl
    | some s => cases h
  | some t =>
    cases s with
    | none => cases h
    | some s =>
      have hs : decode t = .ok s := Option.some.inj h
      rw [Option.toList_some, List.mapM_cons, hs]
      rfl

theorem loadConfig_of_decodesTo {decode : Toml.Decoder} {ts : ConfigTexts} {s : ConfigTables}
    (h : DecodesTo decode ts s) : loadConfig decode ts = Config.ofTables s.inOrder := by
  have hbundled : [configuration.toList].mapM decode = .ok [s.bundled] := by
    rw [List.mapM_cons, h.bundled]
    rfl
  have hall : (ts.inOrder configuration.toList).mapM decode = .ok s.inOrder := by
    rw [ConfigTexts.inOrder, List.mapM_append, List.mapM_append, List.mapM_append,
      mapM_toList h.given, mapM_toList h.here, mapM_toList h.home, hbundled]
    rfl
  rw [loadConfig, Config.ofTexts, hall]

/-- An option has the first value that a source gives it for its command, or else the first one that
a source gives it for all commands, or else none: as long as all sources have the right form. If one
of them has not, there are no values at all, and who asks for one ends with the exit code one, as
does every run. -/
theorem getDefault_of_decodesTo {w : World} {ts : ConfigTexts} {s : ConfigTables}
    (hw : w.configurations = .ok ts) (hs : DecodesTo w.decode ts s) :
    ((∀ source ∈ s.inOrder, HasForm source) →
      ∃ c, loadConfig w.decode ts = .ok c ∧ ∀ command option,
        let value := (s.inOrder.findSome? (given? · command option)).or
          (s.inOrder.findSome? (given? · "default" option))
        c.default? command option = value ∧ getDefault w command option = .ok value) ∧
    ((∃ source ∈ s.inOrder, ¬ HasForm source) →
      loadConfig w.decode ts = .error .wrongForm ∧
      (∀ command option, getDefault w command option =
        .error ⟨[.err (configTrouble command .wrongForm)], .exit 1, w.tree⟩) ∧
      ∀ interrupt most args, run w interrupt most args =
        ⟨[.err (configTrouble "generate" .wrongForm)], .exit 1, w.tree⟩) := by
  have hload : loadConfig w.decode ts = Config.ofTables s.inOrder := loadConfig_of_decodesTo hs
  refine ⟨fun hall => ?_, fun hwrong => ?_⟩
  · obtain ⟨c, hc, hvalue⟩ := Config.exists_ofTables hall
    have hfor (command : String) : configFor w command = .ok c := by
      rw [configFor, hw]
      dsimp only
      rw [hload, hc]
    refine ⟨c, hload.trans hc, fun command option => ⟨hvalue command option, ?_⟩⟩
    rw [getDefault, hfor, ← hvalue]
    rfl
  · have hfails : loadConfig w.decode ts = .error .wrongForm :=
      hload.trans (Config.ofTables_eq_wrongForm hwrong)
    have hfor (command : String) : configFor w command =
        .error ⟨[.err (configTrouble command .wrongForm)], .exit 1, w.tree⟩ := by
      rw [configFor, hw]
      dsimp only
      rw [hfails]
    refine ⟨hfails, fun command option => ?_, fun interrupt most args => ?_⟩
    · rw [getDefault, hfor]
      rfl
    · rw [run, start, hfor]
      rfl

/-! ### Some documents -/

/-- The table that gives commands these values. -/
def tableOf (commands : List (String × List (String × Toml))) : Toml.Fields :=
  [(Config.defaultsKey, .table (commands.map fun c =>
    (c.1.toList, .list [.table (c.2.map fun o => (o.1.toList, o.2)) false])) false)]

theorem not_hasForm_boolean (b : Bool) : ¬ HasForm [(Config.defaultsKey, .boolean b)] := by
  intro h
  obtain ⟨_, _, htable, -⟩ := h _ rfl
  cases htable

theorem hasForm_tableOf {commands : List (String × List (String × Toml))}
    (h : ∀ c ∈ commands, ∀ o ∈ c.2, o.2.IsPlain) : HasForm (tableOf commands) := by
  rintro v ⟨⟩
  refine ⟨_, _, rfl, fun e he => ?_⟩
  obtain ⟨c, hc, rfl⟩ := List.mem_map.1 he
  refine .intro fun f hf => ?_
  obtain ⟨o, ho, rfl⟩ := List.mem_map.1 hf
  exact h c hc o ho

/-- What the bundled configuration says. -/
def bundledCommands : List (String × List (String × Toml)) := [
  ("default", [("--log-level", .text "WARNING".toList)]),
  ("generate", [("--num-pairs", .integer 10), ("--level-limit", .integer 2048),
    ("--format", .text "text".toList)]),
  ("create", [("--output-dir", .text ".".toList), ("--base-name", .text "output".toList)])]

theorem isPlain_bundledCommands : ∀ c ∈ bundledCommands, ∀ o ∈ c.2, o.2.IsPlain := by
  have hnil : ∀ o ∈ ([] : List (String × Toml)), o.2.IsPlain := List.forall_mem_nil _
  simp only [bundledCommands, List.forall_mem_cons]
  exact ⟨⟨.text _, hnil⟩, ⟨.integer _, .integer _, .text _, hnil⟩, ⟨.text _, .text _, hnil⟩,
    List.forall_mem_nil _⟩

/-- A decoder of the bundled configuration and of other listed documents. -/
def decoderOf (documents : List (Text × Toml.Fields)) : Toml.Decoder := fun t =>
  match ((configuration.toList, tableOf bundledCommands) :: documents).lookup t with
  | none => .error (.malformed "unknown document")
  | some fields => .ok fields

theorem decoderOf_bundled (documents : List (Text × Toml.Fields)) :
    decoderOf documents configuration.toList = .ok (tableOf bundledCommands) := by
  rw [decoderOf, List.lookup_cons_self]

/-- The bundled text begins with a comment. -/
theorem head?_configuration : configuration.toList.head? = some '#' := by
  rw [configuration, written, String.toList_join]
  rfl

theorem decoderOf_eq {documents : List (Text × Toml.Fields)} {t : Text} {fields : Toml.Fields}
    (hhead : t.head? ≠ some '#') (h : documents.lookup t = some fields) :
    decoderOf documents t = .ok fields := by
  have hne : t ≠ configuration.toList := fun he => hhead (he ▸ head?_configuration)
  rw [decoderOf, List.lookup_cons, beq_false_of_ne hne, h]

/-- A no for one command in the home folder stands before a yes for all commands that is given, and
what the bundled text says holds where nothing else does. A file in the working folder in which
`defaults` is no table takes all values away, and every run ends at once. -/
theorem getDefault_of_decodesTo_no :
    let given : Text := "[[defaults.default]]\n\"--quiet\" = true\n".toList
    let here : Text := "defaults = false\n".toList
    let home : Text :=
      "[[defaults.generate]]\n\"--quiet\" = false\n\"--num-pairs\" = 3\n".toList
    let yes : Toml.Fields := tableOf [("default", [("--quiet", .boolean true)])]
    let wrong : Toml.Fields := [(Config.defaultsKey, .boolean false)]
    let no : Toml.Fields :=
      tableOf [("generate", [("--quiet", .boolean false), ("--num-pairs", .integer 3)])]
    let decode : Toml.Decoder := decoderOf [(given, yes), (here, wrong), (home, no)]
    let w : World :=
      { tree := {}, decode := decode, configurations := .ok { given := given, home := home } }
    let w' : World :=
      { tree := {}, decode := decode, configurations := .ok { here := here, home := home } }
    getDefault w "generate" "--quiet" = .ok (some (.boolean false)) ∧
      getDefault w "check" "--quiet" = .ok (some (.boolean true)) ∧
      getDefault w "generate" "--num-pairs" = .ok (some (.integer 3)) ∧
      getDefault w "generate" "--level-limit" = .ok (some (.integer 2048)) ∧
      getDefault w "check" "--log-level" = .ok (some (.text "WARNING")) ∧
      getDefault w "check" "--format" = .ok none ∧
      ∀ args, (run w' none 0 args).ending = .exit 1 := by
  intro given here home yes wrong no decode w w'
  have hgiven : decode given = .ok yes := decoderOf_eq (by decide) List.lookup_cons_self
  have hhere : decode here = .ok wrong := decoderOf_eq (by decide) (by with_unfolding_all rfl)
  have hhome : decode home = .ok no := decoderOf_eq (by decide) (by with_unfolding_all rfl)
  have hbundled : decode configuration.toList = .ok (tableOf bundledCommands) := decoderOf_bundled _
  let s : ConfigTables := { given := yes, home := no, bundled := tableOf bundledCommands }
  let s' : ConfigTables := { here := wrong, home := no, bundled := tableOf bundledCommands }
  have hs : DecodesTo decode { given := given, home := home } s :=
    ⟨congrArg some hgiven, rfl, congrArg some hhome, hbundled⟩
  have hs' : DecodesTo decode { here := here, home := home } s' :=
    ⟨rfl, congrArg some hhere, congrArg some hhome, hbundled⟩
  have hform : ∀ source ∈ s.inOrder, HasForm source := by
    have hyes : HasForm yes := hasForm_tableOf (by simp [Toml.IsPlain.boolean])
    have hno : HasForm no := by
      refine hasForm_tableOf (List.forall_mem_singleton.2 ?_)
      exact List.forall_mem_cons.2 ⟨.boolean _, List.forall_mem_singleton.2 (.integer _)⟩
    exact List.forall_mem_cons.2 ⟨hyes, List.forall_mem_cons.2
      ⟨hno, List.forall_mem_singleton.2 (hasForm_tableOf isPlain_bundledCommands)⟩⟩
  have hwrong : ∃ source ∈ s'.inOrder, ¬ HasForm source :=
    ⟨wrong, List.mem_cons_self, not_hasForm_boolean false⟩
  obtain ⟨c, -, hvalue⟩ := (getDefault_of_decodesTo (w := w) rfl hs).1 hform
  obtain ⟨-, -, hrun⟩ := (getDefault_of_decodesTo (w := w') rfl hs').2 hwrong
  refine ⟨(hvalue _ _).2.trans ?_, (hvalue _ _).2.trans ?_, (hvalue _ _).2.trans ?_,
    (hvalue _ _).2.trans ?_, (hvalue _ _).2.trans ?_, (hvalue _ _).2.trans ?_, fun args => ?_⟩
  · rfl
  · rfl
  · rfl
  · rfl
  · rfl
  · rfl
  · rw [hrun]

end Cli

end PairGrammar
