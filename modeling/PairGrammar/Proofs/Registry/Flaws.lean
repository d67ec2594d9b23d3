import PairGrammar.Proofs.Registry.Keeping

/-!
# What the second pass may still find fault with

Where the first pass has come through, no line is missing and every header starts with a name that
has been entered. So the second pass meets each kind of item where it expects it, and finds a draft
for each production. What is left to go wrong is the weight of a header, the text of a content line,
and the sum of weights.

* `Item.Flaw`: the faults that are left.
* `Ready.buildItem`: a step of the second pass goes through, or comes upon such a fault.
* `build_cases`: so does the whole pass.
-/

namespace PairGrammar

/-! ### Faults that are left -/

/-- What may be wrong with the words behind the name of a header. -/
inductive Header.Flaw : List Text → Failure → Prop
  | property {w : Text} {ws : List Text} (h : w ≠ weightWord) :
      Header.Flaw (w :: ws) (.ofFault (.unknownProperty w))
  | missing : Header.Flaw [weightWord] (.ofFault .weightMissing)
  | notDecimal {w : Text} {ws : List Text} (h : Numeral.isDecimal w = false) :
      Header.Flaw (weightWord :: w :: ws) (.ofFault (.weightNotDecimal w))
  | long {w : Text} {ws : List Text} (h : Numeral.maxLength < w.length) :
      Header.Flaw (weightWord :: w :: ws) (.longNumeral w.length)
  | tooBig {w : Text} {ws : List Text} (h : maxWeight < Numeral.value w) :
      Header.Flaw (weightWord :: w :: ws) (.ofFault (.weightTooBig w))

/-- What may be wrong with a content line. -/
inductive Content.Flaw (declared : Name → Bool) (line : Text) : Fault → Prop
  | doubleHash (h : ['#', '#'] <+: line.trimLeft) :
      Content.Flaw declared line (.doubleHash line.trimLeft)
  | reservedName : Content.Flaw declared line .reservedName
  | undefinedVariable (n : Name) (h : declared n = false) :
      Content.Flaw declared line (.undefinedVariable n)

/-- What may be wrong with an item of a block whose name is known. -/
inductive Item.Flaw (declared : Name → Bool) : Item → Failure → Prop
  | header {line rest : Text} {n : Name} {e : Failure}
      (hn : Header.readName line = .ok (n, rest)) (he : Header.Flaw rest.words e) :
      Item.Flaw declared (.header line) e
  | content {i : Item} {line : Text} {f : Fault} (hi : i.content? = some line)
      (hf : Content.Flaw declared line f) : Item.Flaw declared i (.ofFault f)
  | overflow (line : Text) : Item.Flaw declared (.code line) (.ofFault .weightOverflow)

theorem Header.flaw_of_readWeight {ws : List Text} {e : Failure}
    (h : readWeight ws = .error e) : Header.Flaw ws e := by
  unfold readWeight at h
  split at h
  · cases h
  · next w ws =>
    by_cases hw : w = weightWord
    · subst hw
      rw [if_neg (by simp)] at h
      split at h
      · cases h
        exact .missing
      · next w ws =>
        cases hd : Numeral.isDecimal w with
        | false =>
          rw [hd] at h
          cases h
          exact .notDecimal hd
        | true =>
          rw [hd, if_neg (by simp)] at h
          by_cases hlong : Numeral.maxLength < w.length
          · rw [if_pos hlong] at h
            cases h
            exact .long hlong
          · rw [if_neg hlong] at h
            by_cases hbig : maxWeight < Numeral.value w
            · rw [if_pos hbig] at h
              cases h
              exact .tooBig hbig
            · rw [if_neg hbig] at h
              cases h
    · rw [if_pos hw] at h
      cases h
      exact .property hw

theorem Header.flaw_of_read {line rest : Text} {n : Name} {e : Failure}
    (hn : readName line = .ok (n, rest)) (h : Header.read line = .error e) :
    Header.Flaw rest.words e := by
  rw [Header.read, hn] at h
  dsimp only at h
  cases hw : readWeight rest.words with
  | error e' =>
    rw [hw] at h
    cases h
    exact flaw_of_readWeight hw
  | ok w =>
    rw [hw] at h
    cases h

namespace Piece

theorem flaw_of_read {declared : Name → Bool} {line : Text} {m : Mode} {t : Text} {f : Fault}
    (h : read declared m t = .error f) : Content.Flaw declared line f := by
  fun_induction read declared m t with
  | case1 => cases h
  | case2 before c r hc ih => exact ih h
  | case3 before c r hc ih => exact ih (map_eq_error h)
  | case4 seen =>
    rcases consReference_eq_error h with ⟨hn, rfl⟩ | ⟨-, h⟩
    · exact .undefinedVariable seen hn
    · cases h
  | case5 seen c r hc ih => exact ih h
  | case6 =>
    cases h
    exact .reservedName
  | case7 seen c r hc hs glued loose =>
    rcases consReference_eq_error h with ⟨hn, rfl⟩ | ⟨-, h⟩
    · exact .undefinedVariable seen hn
    · split at h
      · exact glued h
      · exact loose (map_eq_error h)

end Piece

namespace Registry

theorem flaw_of_readContent {reg : Registry} {line : Text} {f : Fault}
    (h : reg.readContent line = .error f) : Content.Flaw reg.declares line f := by
  unfold readContent at h
  by_cases he : line = Header.emptyLine
  · rw [if_pos he] at h
    cases h
  · rw [if_neg he] at h
    unfold Piece.readLine at h
    split at h
    · next w hw =>
      cases h
      exact .doubleHash ⟨w, hw.symm⟩
    · exact Piece.flaw_of_read h

/-! ### What the first pass leaves -/

/-- The items of whole blocks, from the expected kind of item on; the headers start with one of the
names. -/
inductive Introduced (ns : List Name) : Item.Expected → List Item → Prop
  | nil : Introduced ns .header []
  | header {line rest : Text} {n : Name} {items : List Item}
      (hn : Header.readName line = .ok (n, rest)) (hmem : n ∈ ns)
      (h : Introduced ns .natural items) : Introduced ns .header (.header line :: items)
  | natural {line : Text} {items : List Item} (h : Introduced ns .code items) :
      Introduced ns .natural (.natural line :: items)
  | code {line : Text} {items : List Item} (h : Introduced ns .header items) :
      Introduced ns .code (.code line :: items)

theorem introduced_of_blocks {ns : List Name} {bs : List Block}
    (h : ∀ b ∈ bs, ∃ n ∈ ns, b.Introduces n) :
    Introduced ns .header (bs.flatMap Item.ofBlock) := by
  induction bs with
  | nil => exact .nil
  | cons b bs ih =>
    obtain ⟨⟨n, hmem, rest, hn⟩, hbs⟩ := List.forall_mem_cons.1 h
    exact .header hn hmem (.natural (.code (ih hbs)))

/-- How much has been read of a block of one of the names, where the given kind of item is
expected. -/
def Progress.Awaits (ns : List Name) : Item.Expected → Progress → Prop
  | .header, _ => True
  | .natural, .header h => h.name ∈ ns
  | .code, .natural h _ => h.name ∈ ns
  | _, _ => False

/-- The state of the second pass in front of items: the names are still those of the first pass, no
draft is sealed, and the items go on where the pass is within a block. -/
structure Ready (ns : List Name) (items : List Item) (s : Registry × Progress) : Prop where
  names : s.1.names = ns
  unsealed : ∀ d ∈ s.1, d.isSealed = false
  items : ∃ e, Introduced ns e items ∧ s.2.Awaits ns e

/-- A production can be added for a name of the registry, unless the weights leave their range. -/
theorem add_of_mem {reg : Registry} (hreg : ∀ d ∈ reg, d.isSealed = false) {h : Header}
    (hn : h.name ∈ reg.names) (p : Production) :
    (∃ reg', reg.add h p = .ok reg' ∧ reg'.names = reg.names ∧ ∀ d ∈ reg', d.isSealed = false) ∨
      reg.add h p = .error (.ofFault .weightOverflow) := by
  obtain ⟨d, hd⟩ := exists_find?_iff.2 hn
  have hunsealed : d.isSealed = false := hreg d (List.mem_of_find?_eq_some hd)
  by_cases hw : d.total + h.weight ≤ maxWeight
  · refine .inl ⟨_, add_eq_ok_iff.2 ⟨d, hd, hw, hunsealed, rfl⟩, names_update _ _, ?_⟩
    intro e he
    obtain ⟨e', he', rfl⟩ := List.mem_map.1 he
    split
    · exact hunsealed
    · exact hreg e' he'
  · right
    have hover : d.overflows h.weight = true := by
      rw [Draft.overflows, decide_eq_true_eq]
      omega
    rw [add, hd]
    dsimp only
    rw [if_pos hover]

/-- A step of the second pass goes through, or comes upon a flaw of its item. -/
theorem Ready.buildItem {ns : List Name} {i : Item} {items : List Item} {s : Registry × Progress}
    (h : Ready ns (i :: items) s) :
    (∃ s', Registry.buildItem s i = .ok s' ∧ Ready ns items s') ∨
      ∃ e, Registry.buildItem s i = .error e ∧ i.Flaw ns.contains e := by
  obtain ⟨reg, q⟩ := s
  obtain ⟨hnames, hunsealed, e, hitems, hawaits⟩ := h
  have hdeclares : reg.declares = ns.contains := by
    funext n
    rw [declares]
    exact congrArg (·.contains n) hnames
  cases hitems with
  | @header line rest n _ hn hmem hitems =>
    cases hr : Header.read line with
    | error e =>
      refine .inr ⟨e, by simp only [Registry.buildItem, hr], ?_⟩
      exact .header hn (Header.flaw_of_read hn hr)
    | ok h =>
      refine .inl ⟨(reg, .header h), by simp only [Registry.buildItem, hr], hnames, hunsealed,
        .natural, hitems, ?_⟩
      obtain ⟨rest', hn'⟩ := Header.readName_of_read hr
      rw [hn] at hn'
      cases hn'
      exact hmem
  | @natural line _ hitems =>
    cases q with
    | none => cases hawaits
    | natural h ps => cases hawaits
    | header h =>
      cases hc : reg.readContent line with
      | error f =>
        refine .inr ⟨.ofFault f, by simp only [Registry.buildItem, hc], .content rfl ?_⟩
        rw [← hdeclares]
        exact flaw_of_readContent hc
      | ok ps =>
        exact .inl ⟨(reg, .natural h ps), by simp only [Registry.buildItem, hc], hnames,
          hunsealed, .code, hitems, hawaits⟩
  | @code line _ hitems =>
    cases q with
    | none => cases hawaits
    | header h => cases hawaits
    | natural h ps =>
      cases hc : reg.readContent line with
      | error f =>
        refine .inr ⟨.ofFault f, by simp only [Registry.buildItem, hc], .content rfl ?_⟩
        rw [← hdeclares]
        exact flaw_of_readContent hc
      | ok qs =>
        have hmem : h.name ∈ reg.names := by
          rw [show reg.names = ns from hnames]
          exact hawaits
        rcases add_of_mem hunsealed hmem ⟨ps, qs⟩ with ⟨reg', ha, hnames', hunsealed'⟩ | ha
        · exact .inl ⟨(reg', .none), by simp only [Registry.buildItem, hc, ha],
            hnames'.trans hnames, hunsealed', .header, hitems, trivial⟩
        · exact .inr ⟨_, by simp only [Registry.buildItem, hc, ha], .overflow line⟩

/-! ### Passes -/

/-- Where each step goes through or comes upon a flaw, a pass goes through all items or comes upon a
flaw of one of them. What is known of the state may depend on the items that are left. -/
theorem through_cases {σ : Type} {step : σ → Item → Except Failure σ} {P : List Item → σ → Prop}
    {F : Item → Failure → Prop}
    (hstep : ∀ i items s, P (i :: items) s →
      (∃ s', step s i = .ok s' ∧ P items s') ∨ ∃ e, step s i = .error e ∧ F i e)
    (file : String) {items : List (Nat × Item)} {s : σ} (h : P (items.map Prod.snd) s) :
    (∃ s', through step file s items = (s', none) ∧ P [] s') ∨
      ∃ s' x e, through step file s items = (s', some (e.locate file x.1)) ∧ x ∈ items ∧
        F x.2 e := by
  induction items generalizing s with
  | nil => exact .inl ⟨s, rfl, h⟩
  | cons x items ih =>
    rw [through]
    rcases hstep x.2 (items.map Prod.snd) s h with ⟨s', hs, hP⟩ | ⟨e, hs, hF⟩
    · rw [hs]
      rcases ih hP with hok | ⟨t, y, e, ht, hy, hF⟩
      · exact .inl hok
      · exact .inr ⟨t, y, e, ht, List.mem_cons_of_mem _ hy, hF⟩
    · rw [hs]
      exact .inr ⟨s, x, e, rfl, List.mem_cons_self, hF⟩

/-- Over blocks whose names are known, the second pass goes through or comes upon a flaw. -/
theorem build_cases {reg : Registry} (hreg : ∀ d ∈ reg, d.isSealed = false) {lines : List Text}
    {bs : List Block} (hbs : Layout lines bs) (hnames : ∀ b ∈ bs, ∃ n ∈ reg.names, b.Introduces n)
    (file : String) :
    (∃ reg', reg.build file lines = (reg', none) ∧ reg'.names = reg.names ∧
        ∀ d ∈ reg', d.isSealed = false) ∨
      ∃ reg' x e, reg.build file lines = (reg', some (e.locate file x.1)) ∧
        x ∈ Item.scanLines lines ∧ x.2.Flaw reg.declares e := by
  have hready : Ready reg.names ((Item.scanLines lines).map Prod.snd) (reg, .none) := by
    refine ⟨rfl, hreg, .header, ?_, trivial⟩
    rw [Item.scanLines, Item.scan_of_layout hbs]
    exact introduced_of_blocks hnames
  rw [build]
  rcases through_cases (fun _ _ _ => Ready.buildItem) file hready with
    ⟨⟨reg', q⟩, hs, hP⟩ | ⟨⟨reg', q⟩, x, e, hs, hx, hF⟩
  · exact .inl ⟨reg', by rw [hs], hP.names, hP.unsealed⟩
  · exact .inr ⟨reg', x, e, by rw [hs], hx, hF⟩

end Registry

end PairGrammar
