import Mathlib.Data.List.Forall2
import PairGrammar.Proofs.Block.Layout
import PairGrammar.Proofs.Header.Reading
import PairGrammar.Proofs.Registry.Rules

/-!
# The two passes over the lines of a source

A pass goes through the items of the lines and succeeds if none of them is at fault. Then no line
is missing, so the lines are laid out in blocks, and the pass comes to one step for each block:
`declareBlock` enters the name of a block, and `buildBlock` adds its production.

* `declare_eq_none_iff`, `build_eq_none_iff`: a pass succeeds if the lines have a layout and the
  steps over its blocks succeed.
* `foldlM_declareBlock_iff`: entering succeeds if each header starts with a name.
* `foldlM_buildBlock_iff`: adding succeeds if the blocks stand for rules, with names that have been
  entered and with weights in range.
-/

namespace PairGrammar

/-- Whatever stands on the left is related to something on the right. -/
theorem exists_of_forall₂ {α β : Type} {R : α → β → Prop} {as : List α} {bs : List β}
    (h : List.Forall₂ R as bs) : ∀ a ∈ as, ∃ b ∈ bs, R a b := by
  induction h with
  | nil => simp
  | @cons a b as bs hab _ ih =>
    refine List.forall_mem_cons.2 ⟨⟨b, List.mem_cons_self, hab⟩, fun c hc => ?_⟩
    obtain ⟨d, hd, hcd⟩ := ih c hc
    exact ⟨d, List.mem_cons_of_mem _ hd, hcd⟩

/-- If each entry is related to something, then all entries are, one by one. -/
theorem exists_forall₂ {α β : Type} {R : α → β → Prop} {as : List α} (h : ∀ a ∈ as, ∃ b, R a b) :
    ∃ bs, List.Forall₂ R as bs := by
  induction as with
  | nil => exact ⟨[], .nil⟩
  | cons a as ih =>
    obtain ⟨⟨b, hab⟩, has⟩ := List.forall_mem_cons.1 h
    obtain ⟨bs, hbs⟩ := ih has
    exact ⟨b :: bs, .cons hab hbs⟩

/-- A block introduces the name that its header starts with. -/
def Block.Introduces (b : Block) (n : Name) : Prop :=
  ∃ rest, Header.readName b.header = .ok (n, rest)

theorem Header.readName_of_read {line : Text} {h : Header} (hr : Header.read line = .ok h) :
    ∃ rest, Header.readName line = .ok (h.name, rest) := by
  obtain ⟨rest, hn, -⟩ := Header.exists_of_read hr
  exact ⟨rest, hn⟩

theorem Block.Denotes.introduces {declared : Name → Bool} {b : Block} {r : Rule}
    (h : b.Denotes declared r) : b.Introduces r.header.name := Header.readName_of_read h.header

theorem Block.Introduces.unique {b : Block} {m n : Name} (hm : b.Introduces m)
    (hn : b.Introduces n) : m = n := by
  obtain ⟨_, hm⟩ := hm
  obtain ⟨_, hn⟩ := hn
  rw [hm] at hn
  cases hn
  rfl

namespace Registry

/-! ### Going through items and blocks -/

theorem foldlM_cons_eq_ok {σ β ε : Type} {step : σ → β → Except ε σ} {s t : σ} {b : β}
    {bs : List β} :
    (b :: bs).foldlM step s = .ok t ↔ ∃ s', step s b = .ok s' ∧ bs.foldlM step s' = .ok t := by
  rw [List.foldlM_cons]
  cases step s b with
  | error e => simp [bind, Except.bind]
  | ok s' => simp [bind, Except.bind]

theorem through_eq_none_iff {σ : Type} {step : σ → Item → Except Failure σ} {file : String}
    {s t : σ} {items : List (Nat × Item)} :
    through step file s items = (t, none) ↔ (items.map Prod.snd).foldlM step s = .ok t := by
  induction items generalizing s with
  | nil => simp [through, pure, Except.pure]
  | cons i items ih =>
    rw [List.map_cons, foldlM_cons_eq_ok, through]
    cases step s i.2 with
    | error e => simp
    | ok s' => simp [ih]

/-- Where a missing line stops the steps, steps that succeed have met none. -/
theorem missing_not_mem_of_foldlM {σ : Type} {step : σ → Item → Except Failure σ}
    (hm : ∀ s w, ∃ e, step s (.missing w) = .error e) {items : List Item} {s t : σ}
    (h : items.foldlM step s = .ok t) : ∀ w, Item.missing w ∉ items := by
  induction items generalizing s with
  | nil => simp
  | cons i items ih =>
    obtain ⟨s', hi, h⟩ := foldlM_cons_eq_ok.1 h
    intro w hw
    rcases List.mem_cons.1 hw with rfl | hw
    · obtain ⟨e, he⟩ := hm s w
      rw [he] at hi
      cases hi
    · exact ih h w hw

theorem foldlM_flatMap {σ β γ ε : Type} (step : σ → γ → Except ε σ) (f : β → List γ) (s : σ)
    (bs : List β) :
    (bs.flatMap f).foldlM step s = bs.foldlM (fun s b => (f b).foldlM step s) s := by
  induction bs generalizing s with
  | nil => rfl
  | cons b bs ih => simp [List.foldlM_append, ih]

/-- A pass that succeeds is one over the blocks in which the lines are laid out. -/
theorem foldlM_scanLines_iff {σ : Type} {step : σ → Item → Except Failure σ}
    (hm : ∀ s w, ∃ e, step s (.missing w) = .error e) {lines : List Text} {s t : σ} :
    ((Item.scanLines lines).map Prod.snd).foldlM step s = .ok t ↔
      ∃ bs, Layout lines bs ∧
        bs.foldlM (fun s b => (Item.ofBlock b).foldlM step s) s = .ok t := by
  constructor
  · intro h
    obtain ⟨bs, hbs⟩ := exists_layout_of_scan 0 lines (missing_not_mem_of_foldlM hm h)
    rw [Item.scanLines, Item.scan_of_layout hbs, foldlM_flatMap] at h
    exact ⟨bs, hbs, h⟩
  · rintro ⟨bs, hbs, h⟩
    rw [Item.scanLines, Item.scan_of_layout hbs, foldlM_flatMap]
    exact h

/-! ### Entering the names -/

def declareBlock (reg : Registry) (b : Block) : Except Failure Registry :=
  (Item.ofBlock b).foldlM declareItem reg

theorem declare_eq_none_iff {reg reg' : Registry} {file : String} {lines : List Text} :
    declare reg file lines = (reg', none) ↔
      ∃ bs, Layout lines bs ∧ bs.foldlM declareBlock reg = .ok reg' := by
  rw [declare, through_eq_none_iff, foldlM_scanLines_iff fun _ w => ⟨_, rfl⟩]
  rfl

theorem declareBlock_eq_ok_iff {reg reg' : Registry} {b : Block} :
    declareBlock reg b = .ok reg' ↔ ∃ n, b.Introduces n ∧ reg' = reg.enter n := by
  simp only [declareBlock, Item.ofBlock, foldlM_cons_eq_ok, declareItem, Block.Introduces]
  cases Header.readName b.header with
  | error e => simp
  | ok x =>
    obtain ⟨n, rest⟩ := x
    constructor
    · rintro ⟨_, hn, _, hm, _, hc, hd⟩
      cases hn
      cases hm
      cases hc
      cases hd
      exact ⟨n, ⟨rest, rfl⟩, rfl⟩
    · rintro ⟨m, ⟨_, hm⟩, rfl⟩
      cases hm
      exact ⟨_, rfl, _, rfl, _, rfl, rfl⟩

theorem foldlM_declareBlock_iff (ms : List Name) {bs : List Block} {reg : Registry} :
    bs.foldlM declareBlock (ofRules (firsts ms) []) = .ok reg ↔
      ∃ ns, List.Forall₂ Block.Introduces bs ns ∧ reg = ofRules (firsts (ms ++ ns)) [] := by
  induction bs generalizing ms with
  | nil => simp [pure, Except.pure, eq_comm]
  | cons b bs ih =>
    rw [foldlM_cons_eq_ok]
    constructor
    · rintro ⟨reg', hb, hbs⟩
      obtain ⟨n, hn, rfl⟩ := declareBlock_eq_ok_iff.1 hb
      rw [enter_ofRules] at hbs
      obtain ⟨ns, hns, rfl⟩ := (ih _).1 hbs
      exact ⟨n :: ns, .cons hn hns, by simp⟩
    · rintro ⟨_, hns, rfl⟩
      cases hns with
      | @cons _ n _ ns hn hns =>
        refine ⟨_, declareBlock_eq_ok_iff.2 ⟨n, hn, rfl⟩, ?_⟩
        rw [enter_ofRules]
        exact (ih _).2 ⟨ns, hns, by simp⟩

/-! ### Adding the productions -/

/-- A block of which nothing has been read before. -/
def buildBlock (reg : Registry) (b : Block) : Except Failure Registry :=
  ((Item.ofBlock b).foldlM buildItem (reg, .none)).map Prod.fst

theorem readContent_eq_ok_iff {reg : Registry} {line : Text} {ps : List Piece} :
    reg.readContent line = .ok ps ↔ Content reg.declares line ps := by
  unfold readContent Content
  by_cases h : line = Header.emptyLine
  · simp [h, eq_comm]
  · simp [h]

theorem buildItem_header_eq_ok_iff {reg : Registry} {q : Progress} {line : Text}
    {x : Registry × Progress} :
    buildItem (reg, q) (.header line) = .ok x ↔
      ∃ h, Header.read line = .ok h ∧ x = (reg, .header h) := by
  simp only [buildItem]
  cases Header.read line <;> simp [eq_comm]

theorem buildItem_natural_eq_ok_iff {reg : Registry} {h : Header} {line : Text}
    {x : Registry × Progress} :
    buildItem (reg, .header h) (.natural line) = .ok x ↔
      ∃ ps, Content reg.declares line ps ∧ x = (reg, .natural h ps) := by
  simp only [buildItem, ← readContent_eq_ok_iff]
  cases reg.readContent line <;> simp [eq_comm]

theorem buildItem_code_eq_ok_iff {reg : Registry} {h : Header} {ps : List Piece} {line : Text}
    {x : Registry × Progress} :
    buildItem (reg, .natural h ps) (.code line) = .ok x ↔
      ∃ qs reg', Content reg.declares line qs ∧ reg.add h ⟨ps, qs⟩ = .ok reg' ∧
        x = (reg', .none) := by
  simp only [buildItem, ← readContent_eq_ok_iff]
  cases reg.readContent line with
  | error e => simp
  | ok qs => cases ha : reg.add h ⟨ps, qs⟩ <;> simp [ha, eq_comm]

theorem foldlM_buildItem_block {reg : Registry} {q : Progress} {b : Block}
    {x : Registry × Progress} :
    (Item.ofBlock b).foldlM buildItem (reg, q) = .ok x ↔
      ∃ r, b.Denotes reg.declares r ∧
        ∃ reg', reg.add r.header r.production = .ok reg' ∧ x = (reg', .none) := by
  simp only [Item.ofBlock, foldlM_cons_eq_ok]
  constructor
  · rintro ⟨_, first, _, second, _, third, hx⟩
    obtain ⟨h, hh, rfl⟩ := buildItem_header_eq_ok_iff.1 first
    obtain ⟨ps, hn, rfl⟩ := buildItem_natural_eq_ok_iff.1 second
    obtain ⟨qs, reg', hc, ha, rfl⟩ := buildItem_code_eq_ok_iff.1 third
    cases hx
    exact ⟨⟨h, ⟨ps, qs⟩⟩, ⟨hh, hn, hc⟩, reg', ha, rfl⟩
  · rintro ⟨r, hr, reg', ha, rfl⟩
    exact ⟨_, buildItem_header_eq_ok_iff.2 ⟨_, hr.header, rfl⟩,
      _, buildItem_natural_eq_ok_iff.2 ⟨_, hr.natural, rfl⟩,
      _, buildItem_code_eq_ok_iff.2 ⟨_, reg', hr.code, ha, rfl⟩, rfl⟩

/-- Nothing is left behind a block, so the steps over blocks follow each other as steps that start
anew. -/
theorem map_foldlM_buildItem (reg : Registry) (bs : List Block) :
    (bs.foldlM (fun x b => (Item.ofBlock b).foldlM buildItem x) (reg, .none)).map Prod.fst =
      bs.foldlM buildBlock reg := by
  induction bs generalizing reg with
  | nil => rfl
  | cons b bs ih =>
    rw [List.foldlM_cons, List.foldlM_cons, buildBlock]
    cases hb : (Item.ofBlock b).foldlM buildItem (reg, .none) with
    | error e => rfl
    | ok x =>
      obtain ⟨-, -, reg', -, rfl⟩ := foldlM_buildItem_block.1 hb
      exact ih reg'

theorem build_eq_none_iff {reg reg' : Registry} {file : String} {lines : List Text} :
    build reg file lines = (reg', none) ↔
      ∃ bs, Layout lines bs ∧ bs.foldlM buildBlock reg = .ok reg' := by
  have hm : ∀ (x : Registry × Progress) w, ∃ e, buildItem x (.missing w) = .error e := by
    rintro ⟨reg, _ | _ | _⟩ w <;> exact ⟨_, rfl⟩
  have hthrough : build reg file lines = (reg', none) ↔
      ∃ q, through buildItem file (reg, .none) (Item.scanLines lines) = ((reg', q), none) := by
    rw [build]
    obtain ⟨⟨reg'', q⟩, e⟩ := through buildItem file (reg, .none) (Item.scanLines lines)
    simp
  have hfold : ∀ bs : List Block, bs.foldlM buildBlock reg = .ok reg' ↔ ∃ q,
      bs.foldlM (fun x b => (Item.ofBlock b).foldlM buildItem x) (reg, .none) = .ok (reg', q) := by
    intro bs
    rw [← map_foldlM_buildItem]
    rcases bs.foldlM (fun x b => (Item.ofBlock b).foldlM buildItem x) (reg, .none) with e | ⟨r, q⟩
    · simp [Except.map]
    · simp [Except.map]
  simp only [hthrough, through_eq_none_iff, foldlM_scanLines_iff hm, hfold]
  constructor
  · rintro ⟨q, bs, hbs, hf⟩
    exact ⟨bs, hbs, q, hf⟩
  · rintro ⟨bs, hbs, q, hf⟩
    exact ⟨q, bs, hbs, hf⟩

theorem buildBlock_eq_ok_iff {reg reg' : Registry} {b : Block} :
    buildBlock reg b = .ok reg' ↔
      ∃ r, b.Denotes reg.declares r ∧ reg.add r.header r.production = .ok reg' := by
  constructor
  · intro hb
    obtain ⟨x, hx, rfl⟩ := Piece.map_eq_ok hb
    obtain ⟨r, hr, reg', ha, rfl⟩ := foldlM_buildItem_block.1 hx
    exact ⟨r, hr, ha⟩
  · rintro ⟨r, hr, ha⟩
    rw [buildBlock, foldlM_buildItem_block.2 ⟨r, hr, reg', ha, rfl⟩]
    rfl

theorem add_ofRules_iff {ns : List Name} {rs : List Rule} (h : Rule.InRange rs) {r : Rule}
    {reg : Registry} :
    (ofRules ns rs).add r.header r.production = .ok reg ↔
      r.header.name ∈ ns ∧ Rule.InRange (rs ++ [r]) ∧ reg = ofRules ns (rs ++ [r]) := by
  by_cases hn : r.header.name ∈ ns
  · rw [add_ofRules hn, h.concat_iff]
    by_cases hw : maxWeight < Rule.weight (rs ++ [r]) r.header.name
    · have : ¬ Rule.weight (rs ++ [r]) r.header.name ≤ maxWeight := by omega
      simp [hw, this]
    · have : Rule.weight (rs ++ [r]) r.header.name ≤ maxWeight := by omega
      simp [hw, this, hn, eq_comm]
  · rw [add, find?_ofRules_eq_none hn]
    simp [hn]

theorem foldlM_buildBlock_iff {ns : List Name} {rs : List Rule} (h : Rule.InRange rs)
    {bs : List Block} {reg : Registry} :
    bs.foldlM buildBlock (ofRules ns rs) = .ok reg ↔
      ∃ ss, List.Forall₂ (Block.Denotes fun n => decide (n ∈ ns)) bs ss ∧
        (∀ s ∈ ss, s.header.name ∈ ns) ∧ Rule.InRange (rs ++ ss) ∧ reg = ofRules ns (rs ++ ss) := by
  induction bs generalizing rs with
  | nil => simp [pure, Except.pure, h, eq_comm]
  | cons b bs ih =>
    rw [foldlM_cons_eq_ok]
    constructor
    · rintro ⟨reg', hb, hbs⟩
      obtain ⟨r, hr, ha⟩ := buildBlock_eq_ok_iff.1 hb
      obtain ⟨hn, hi, rfl⟩ := (add_ofRules_iff h).1 ha
      obtain ⟨ss, hss, hns, his, rfl⟩ := (ih hi).1 hbs
      rw [declares_ofRules] at hr
      rw [List.append_assoc] at his
      exact ⟨r :: ss, .cons hr hss, List.forall_mem_cons.2 ⟨hn, hns⟩, his, by simp⟩
    · rintro ⟨_, hss, hns, his, rfl⟩
      cases hss with
      | @cons _ r _ ss hr hss =>
        obtain ⟨hn, hns⟩ := List.forall_mem_cons.1 hns
        have his' : Rule.InRange (rs ++ [r] ++ ss) := by simpa using his
        refine ⟨ofRules ns (rs ++ [r]), buildBlock_eq_ok_iff.2 ⟨r, ?_, ?_⟩, ?_⟩
        · rw [declares_ofRules]
          exact hr
        · exact (add_ofRules_iff h).2 ⟨hn, his'.of_append, rfl⟩
        · exact (ih his'.of_append).2 ⟨ss, hss, hns, his', by simp⟩

end Registry

end PairGrammar
