import PairGrammar.Proofs.Registry.Flaws

/-!
# How passes fail on any lines

Without knowing what another pass has made of a source, less can be said of how a pass fails on it
than over blocks whose names are known: lines may be missing, and headers may introduce names that
nobody has entered. What the scan of the lines sees to is the order of the items; so each kind of
item is met where it is expected.

* `Item.inOrder_scan`: the order of the items.
* `isLoad_of_declare`: the first pass fails by load errors only.
* `Within.buildItem`: a step of the second pass goes through, or ends in a load error or at a name
  that has not been entered, as long as no numeral is too long.
-/

namespace PairGrammar

/-- The failure is a load error. -/
def Failure.IsLoad (e : Failure) : Prop := ∃ f, e = .load f

theorem Failure.isLoad_ofFault (f : Fault) : (ofFault f).IsLoad := ⟨_, rfl⟩

theorem Failure.IsLoad.locate {e : Failure} (h : e.IsLoad) (file : String) (line : Int) :
    (e.locate file line).IsLoad := by
  obtain ⟨f, rfl⟩ := h
  exact ⟨_, rfl⟩

/-! ### Items in the order of a scan -/

namespace Item

/-- Items as a scan finds them from the expected kind of item on: whole blocks, and perhaps one that
breaks off where a line is missing. -/
inductive InOrder : Expected → List Item → Prop
  | nil : InOrder .header []
  | header {line : Text} {items : List Item} (hl : Header.isHeader line)
      (h : InOrder .natural items) : InOrder .header (.header line :: items)
  | natural {line : Text} {items : List Item} (h : InOrder .code items) :
      InOrder .natural (.natural line :: items)
  | code {line : Text} {items : List Item} (h : InOrder .header items) :
      InOrder .code (.code line :: items)
  | missing (e : Expected) (which : ContentLine) : InOrder e [.missing which]

theorem inOrder_scan (e : Expected) (k : Nat) (ls : List Text) :
    InOrder e ((scan e k ls).map Prod.snd) := by
  fun_induction scan e k ls with
  | case1 => exact .nil
  | case2 k => exact .missing _ _
  | case3 k => exact .missing _ _
  | case4 k l ls line hl ih => exact .header hl ih
  | case5 k l ls line hl ih => exact ih
  | case6 k l ls line hl => exact .missing _ _
  | case7 k l ls line hl ih => exact .natural ih
  | case8 k l ls line hl => exact .missing _ _
  | case9 k l ls line hl ih => exact .code ih

theorem InOrder.isHeader {e : Expected} {items : List Item} (h : InOrder e items) {line : Text}
    (hl : .header line ∈ items) : Header.isHeader line := by
  induction h with
  | nil => cases hl
  | header hl' _ ih =>
    rcases List.mem_cons.1 hl with heq | hl
    · cases heq
      exact hl'
    · exact ih hl
  | natural _ ih => exact ih (by simpa using hl)
  | code _ ih => exact ih (by simpa using hl)
  | missing => simp at hl

/-- The name that a header introduces. -/
def name? : Item → Option Name
  | header line => (Header.readName line).toOption.map Prod.fst
  | _ => none

theorem name?_header {line rest : Text} {n : Name} (h : Header.readName line = .ok (n, rest)) :
    (header line).name? = some n := by
  rw [name?, h]
  rfl

end Item

/-- The names that the headers of lines introduce, in their order. -/
def introducedNames (lines : List Text) : List Name :=
  (Item.scanLines lines).filterMap (·.2.name?)

/-! ### Headers -/

/-- The numeral that a header has for its weight. -/
def Header.numeral? (line : Text) : Option Text :=
  match readName line with
  | .error _ => none
  | .ok (_, rest) => match rest.words with
    | p :: w :: _ => if p = weightWord ∧ Numeral.isDecimal w then some w else none
    | _ => none

def Item.numeral? : Item → Option Text
  | header line => Header.numeral? line
  | _ => none

/-- The numerals that the headers of lines have for their weights. -/
def weightNumerals (lines : List Text) : List Text :=
  (Item.scanLines lines).filterMap (·.2.numeral?)

theorem Header.numeral?_eq_some {line rest w : Text} {ws : List Text} {n : Name}
    (hn : readName line = .ok (n, rest)) (hw : rest.words = weightWord :: w :: ws)
    (hd : Numeral.isDecimal w) : numeral? line = some w := by
  rw [numeral?, hn]
  dsimp only
  rw [hw]
  exact if_pos ⟨rfl, hd⟩

/-- A name is read from a header, or there is a fault in it. -/
theorem Header.readName_eq_error {line : Text} {e : Failure} (h : readName line = .error e) :
    (∃ f, e = .ofFault f) ∨ e = .brokenPromise ∧ isHeader line = false := by
  unfold readName at h
  split at h
  · left
    split at h
    · cases h
      exact ⟨_, rfl⟩
    · split at h
      · cases h
        exact ⟨_, rfl⟩
      · split at h
        · cases h
          exact ⟨_, rfl⟩
        · dsimp only at h
          split at h
          · cases h
            exact ⟨_, rfl⟩
          · cases h
  · next hne =>
    cases h
    refine .inr ⟨rfl, ?_⟩
    -- a header starts with a hash sign
    cases line with
    | nil => rfl
    | cons c t =>
      have hc : c ≠ '#' := by
        rintro rfl
        exact hne t rfl
      simp [isHeader, hc]

theorem Header.isLoad_of_readName {line : Text} (hl : isHeader line) {e : Failure}
    (h : readName line = .error e) : e.IsLoad := by
  rcases readName_eq_error h with ⟨f, rfl⟩ | ⟨-, hline⟩
  · exact Failure.isLoad_ofFault f
  · rw [hl] at hline
    cases hline

theorem Header.isLoad_of_readWeight {ws : List Text} {e : Failure}
    (hs : ∀ w vs, ws = weightWord :: w :: vs → Numeral.isDecimal w → w.length ≤ Numeral.maxLength)
    (h : readWeight ws = .error e) : e.IsLoad := by
  cases flaw_of_readWeight h with
  | property _ => exact Failure.isLoad_ofFault _
  | missing => exact Failure.isLoad_ofFault _
  | notDecimal _ => exact Failure.isLoad_ofFault _
  | tooBig _ => exact Failure.isLoad_ofFault _
  | @long w vs hlong =>
    cases hd : Numeral.isDecimal w with
    | true =>
      have hle : w.length ≤ Numeral.maxLength := hs w vs rfl hd
      omega
    | false =>
      rw [readWeight, if_neg (by simp)] at h
      simp [hd, Failure.ofFault] at h

/-- Lines that may be headers are read as such, or the fault is one of the rule file, unless it is
the length of a numeral. -/
theorem Header.isLoad_of_read {line : Text} (hl : isHeader line)
    (hs : ∀ w, numeral? line = some w → w.length ≤ Numeral.maxLength) {e : Failure}
    (h : read line = .error e) : e.IsLoad := by
  unfold read at h
  cases hn : readName line with
  | error e' =>
    rw [hn] at h
    cases h
    exact isLoad_of_readName hl hn
  | ok x =>
    obtain ⟨n, rest⟩ := x
    rw [hn] at h
    dsimp only at h
    cases hw : readWeight rest.words with
    | error e' =>
      rw [hw] at h
      cases h
      exact isLoad_of_readWeight (fun w vs hws hd => hs w (numeral?_eq_some hn hws hd)) hw
    | ok w =>
      rw [hw] at h
      cases h

namespace Registry

/-! ### The first pass -/

/-- A pass fails where one of its steps does. -/
theorem exists_of_through_eq_some {σ : Type} {step : σ → Item → Except Failure σ} {file : String}
    {s : σ} {items : List (Nat × Item)} {e : Failure} (h : (through step file s items).2 = some e) :
    ∃ x ∈ items, ∃ t f, step t x.2 = .error f ∧ e = f.locate file x.1 := by
  induction items generalizing s with
  | nil => cases h
  | cons x items ih =>
    rw [through] at h
    cases hx : step s x.2 with
    | error f =>
      rw [hx] at h
      cases h
      exact ⟨x, List.mem_cons_self, s, f, hx, rfl⟩
    | ok s' =>
      rw [hx] at h
      obtain ⟨y, hy, hf⟩ := ih h
      exact ⟨y, List.mem_cons_of_mem _ hy, hf⟩

/-- Whatever the lines are, the first pass fails on them by load errors only. -/
theorem isLoad_of_declare {reg : Registry} {file : String} {lines : List Text} {e : Failure}
    (h : (reg.declare file lines).2 = some e) : e.IsLoad := by
  obtain ⟨⟨k, i⟩, hx, t, f, hf, rfl⟩ := exists_of_through_eq_some h
  refine Failure.IsLoad.locate ?_ _ _
  cases i with
  | header line =>
    have hl : Header.isHeader line :=
      (Item.inOrder_scan .header 0 lines).isHeader (List.mem_map.2 ⟨_, hx, rfl⟩)
    unfold declareItem at hf
    dsimp only at hf
    split at hf
    · next hn =>
      cases hf
      exact Header.isLoad_of_readName hl hn
    · cases hf
  | natural line => cases hf
  | code line => cases hf
  | missing which =>
    cases hf
    exact Failure.isLoad_ofFault _

theorem mem_names_enter {reg : Registry} {m n : Name} :
    m ∈ (reg.enter n).names ↔ m ∈ reg.names ∨ m = n := by
  unfold Registry.enter
  split
  · next hd =>
    have hn : n ∈ reg.names := declares_iff.1 hd
    constructor
    · exact .inl
    · rintro (hm | rfl)
      · exact hm
      · exact hn
  · rw [names, List.map_append, List.mem_append]
    simp [names]

theorem mem_names_declareItem {reg reg' : Registry} {i : Item}
    (hi : declareItem reg i = .ok reg') {n : Name} (hn : n ∈ reg.names) : n ∈ reg'.names := by
  rcases declareItem_cases hi with rfl | ⟨m, -, rfl⟩
  · exact hn
  · exact mem_names_enter.2 (.inl hn)

theorem mem_names_of_name? {reg reg' : Registry} {i : Item} (hi : declareItem reg i = .ok reg')
    {n : Name} (hn : i.name? = some n) : n ∈ reg'.names := by
  cases i with
  | header line =>
    cases hr : Header.readName line with
    | error e =>
      rw [declareItem, hr] at hi
      cases hi
    | ok x =>
      rw [declareItem, hr] at hi
      rw [Item.name?_header hr] at hn
      cases hi
      cases hn
      exact mem_names_enter.2 (.inr rfl)
  | natural line => cases hn
  | code line => cases hn
  | missing which => cases hn

theorem mem_names_of_foldlM {items : List Item} {reg reg' : Registry}
    (h : items.foldlM declareItem reg = .ok reg') :
    reg.names ⊆ reg'.names ∧ ∀ i ∈ items, ∀ n, i.name? = some n → n ∈ reg'.names := by
  induction items generalizing reg with
  | nil =>
    cases h
    exact ⟨List.Subset.refl _, by simp⟩
  | cons i items ih =>
    obtain ⟨reg'', hi, h⟩ := foldlM_cons_eq_ok.1 h
    obtain ⟨hsub, hitems⟩ := ih h
    refine ⟨fun n hn => hsub (mem_names_declareItem hi hn), List.forall_mem_cons.2 ⟨?_, hitems⟩⟩
    exact fun n hn => hsub (mem_names_of_name? hi hn)

/-- The first pass, when it comes through, has entered the names of all headers, and no name has
got lost. -/
theorem names_of_declare {reg reg' : Registry} {file : String} {lines : List Text}
    (h : reg.declare file lines = (reg', none)) :
    reg.names ⊆ reg'.names ∧ introducedNames lines ⊆ reg'.names := by
  obtain ⟨hsub, hitems⟩ := mem_names_of_foldlM (through_eq_none_iff.1 h)
  refine ⟨hsub, fun n hn => ?_⟩
  obtain ⟨x, hx, hxn⟩ := List.mem_filterMap.1 hn
  exact hitems x.2 (List.mem_map_of_mem hx) n hxn

/-! ### The second pass -/

theorem add_eq_error {reg : Registry} {h : Header} {p : Production} {e : Failure}
    (ha : reg.add h p = .error e) :
    (∃ f, e = .ofFault f) ∨ e = .unknownName h.name ∧ h.name ∉ reg.names := by
  by_cases hn : h.name ∈ reg.names
  · left
    obtain ⟨d, hd⟩ := exists_find?_iff.2 hn
    have hweight : ¬ ((h.weight : Int) < 0) := by omega
    rw [add, hd] at ha
    dsimp only at ha
    rw [Draft.insert, if_neg hweight] at ha
    split at ha
    · cases ha
      exact ⟨_, rfl⟩
    · split at ha
      · next hi =>
        split at hi <;> cases hi
      · cases ha
        exact ⟨_, rfl⟩
      · cases ha
  · right
    have hd : reg.find? h.name = none := by
      rw [Option.eq_none_iff_forall_ne_some]
      intro d hd
      exact hn (exists_find?_iff.1 ⟨d, hd⟩)
    rw [add, hd] at ha
    cases ha
    exact ⟨rfl, hn⟩

/-- The failure is a load error, or a name of `ms` that is not among `ns` is unknown. -/
def Stops (ns ms : List Name) (e : Failure) : Prop :=
  e.IsLoad ∨ ∃ n ∈ ms, n ∉ ns ∧ e = .unknownName n

theorem Stops.locate {ns ms : List Name} {e : Failure} (h : Stops ns ms e) (file : String)
    (line : Int) : Stops ns ms (e.locate file line) := by
  rcases h with h | ⟨n, hn, hnew, rfl⟩
  · exact .inl (h.locate file line)
  · exact .inr ⟨n, hn, hnew, rfl⟩

/-- With fewer names `ns` and more names `ms` the failure may be of more kinds. -/
theorem Stops.mono {ns ns' ms ms' : List Name} {e : Failure} (h : Stops ns ms e) (hns : ns' ⊆ ns)
    (hms : ms ⊆ ms') : Stops ns' ms' e := by
  rcases h with h | ⟨n, hn, hnew, he⟩
  · exact .inl h
  · exact .inr ⟨n, hms hn, fun hmem => hnew (hns hmem), he⟩

/-- The state of the second pass in front of items of any lines: the registry has the names `ns`,
and the block that the pass is in has one of the names `ms`. -/
structure Within (ns ms : List Name) (items : List Item) (s : Registry × Progress) : Prop where
  names : s.1.names = ns
  heads : ∀ i ∈ items, ∀ n, i.name? = some n → n ∈ ms
  short : ∀ i ∈ items, ∀ w, i.numeral? = some w → w.length ≤ Numeral.maxLength
  items : ∃ e, Item.InOrder e items ∧ s.2.Awaits ms e

theorem Within.buildItem {ns ms : List Name} {i : Item} {items : List Item}
    {s : Registry × Progress} (h : Within ns ms (i :: items) s) :
    (∃ s', Registry.buildItem s i = .ok s' ∧ Within ns ms items s') ∨
      ∃ e, Registry.buildItem s i = .error e ∧ Stops ns ms e := by
  obtain ⟨reg, q⟩ := s
  obtain ⟨hnames, hheads, hshort, e, hitems, hawaits⟩ := h
  obtain ⟨hhead, hheads'⟩ := List.forall_mem_cons.1 hheads
  obtain ⟨hshort, hshort'⟩ := List.forall_mem_cons.1 hshort
  have hfault : ∀ f, Stops ns ms (.ofFault f) := fun f => .inl (Failure.isLoad_ofFault f)
  cases hitems with
  | @header line _ hl hitems =>
    cases hr : Header.read line with
    | error e =>
      have hload : e.IsLoad := Header.isLoad_of_read hl hshort hr
      exact .inr ⟨e, by simp only [Registry.buildItem, hr], .inl hload⟩
    | ok h =>
      obtain ⟨rest, hn⟩ := Header.readName_of_read hr
      refine .inl ⟨(reg, .header h), by simp only [Registry.buildItem, hr], hnames, hheads', hshort',
        .natural, hitems, ?_⟩
      exact hhead h.name (Item.name?_header hn)
  | @natural line _ hitems =>
    cases q with
    | none => cases hawaits
    | natural h ps => cases hawaits
    | header h =>
      cases hc : reg.readContent line with
      | error f => exact .inr ⟨.ofFault f, by simp only [Registry.buildItem, hc], hfault f⟩
      | ok ps =>
        exact .inl ⟨(reg, .natural h ps), by simp only [Registry.buildItem, hc], hnames, hheads',
          hshort', .code, hitems, hawaits⟩
  | @code line _ hitems =>
    cases q with
    | none => cases hawaits
    | header h => cases hawaits
    | natural h ps =>
      cases hc : reg.readContent line with
      | error f => exact .inr ⟨.ofFault f, by simp only [Registry.buildItem, hc], hfault f⟩
      | ok qs =>
        cases ha : reg.add h ⟨ps, qs⟩ with
        | error e =>
          refine .inr ⟨e, by simp only [Registry.buildItem, hc, ha], ?_⟩
          rcases add_eq_error ha with ⟨f, rfl⟩ | ⟨rfl, hnew⟩
          · exact hfault f
          · exact .inr ⟨h.name, hawaits, hnames ▸ hnew, rfl⟩
        | ok reg' =>
          have hnames' : reg'.names = ns := (names_of_add ha).trans hnames
          exact .inl ⟨(reg', .none), by simp only [Registry.buildItem, hc, ha], hnames', hheads',
            hshort', .header, hitems, trivial⟩
  | missing e which =>
    refine .inr ⟨.ofFault (.lineMissing which), ?_, hfault _⟩
    cases q <;> rfl

theorem names_build (reg : Registry) (file : String) (lines : List Text) :
    (reg.build file lines).1.names = reg.names :=
  (keeps_build (C := fun _ => True) (fun _ _ _ _ => ⟨trivial, trivial⟩) file
    fun _ _ _ _ _ _ => trivial).1

end Registry

end PairGrammar
