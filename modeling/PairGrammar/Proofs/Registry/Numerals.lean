import PairGrammar.Proofs.Registry.Failing

/-!
# Numerals that are too long

The one thing in the lines of a rule file that ends a pass with no load error is the length of a
numeral. The second pass comes to it at the header that has the numeral; up to there its items are
as short as `Within` asks for, so what ends the pass there is known.

* `InOrder.takeWhile_short`: the items in front of a long numeral are whole blocks.
* `buildItem_of_long`: the header that has it cannot be read.
* `build_fails`: the second pass fails by load errors, at a name that has not been entered, or at a
  numeral that is too long.
-/

namespace PairGrammar

/-- The failure is that a numeral among `ws` is too long. -/
def Failure.IsLong (ws : List Text) (e : Failure) : Prop :=
  ∃ w ∈ ws, Numeral.maxLength < w.length ∧ e = .longNumeral w.length

theorem Failure.IsLong.locate {ws : List Text} {e : Failure} (h : e.IsLong ws) (file : String)
    (line : Int) : (e.locate file line).IsLong ws := by
  obtain ⟨w, hw, hlong, rfl⟩ := h
  exact ⟨w, hw, hlong, rfl⟩

theorem Failure.IsLong.mono {ws vs : List Text} {e : Failure} (h : e.IsLong ws) (hsub : ws ⊆ vs) :
    e.IsLong vs := by
  obtain ⟨w, hw, he⟩ := h
  exact ⟨w, hsub hw, he⟩

/-! ### Items -/

theorem Header.exists_of_numeral? {line w : Text} (h : numeral? line = some w) :
    ∃ n rest ws, readName line = .ok (n, rest) ∧ rest.words = weightWord :: w :: ws ∧
      Numeral.isDecimal w := by
  unfold numeral? at h
  split at h
  · cases h
  · next n rest hn =>
    split at h
    · next p v ws hwords =>
      split at h
      · next hp =>
        obtain ⟨rfl, hd⟩ := hp
        cases h
        exact ⟨n, rest, ws, hn, hwords, hd⟩
      · cases h
    · cases h

theorem Header.read_of_long {line w : Text} (h : numeral? line = some w)
    (hlong : Numeral.maxLength < w.length) : read line = .error (.longNumeral w.length) := by
  obtain ⟨n, rest, ws, hn, hwords, hd⟩ := exists_of_numeral? h
  rw [read, hn]
  dsimp only
  rw [hwords, readWeight_numeral hd, if_pos hlong]

namespace Item

/-- The item has no numeral that is too long. -/
def isShort (i : Item) : Bool := i.numeral?.all (·.length ≤ Numeral.maxLength)

theorem isShort_iff {i : Item} :
    i.isShort ↔ ∀ w, i.numeral? = some w → w.length ≤ Numeral.maxLength := by
  rw [isShort, Option.all_eq_true]
  simp

/-- A long numeral stands in a header, so the items in front of it are whole blocks. -/
theorem InOrder.takeWhile_short {e : Expected} {items : List Item} (h : InOrder e items) :
    InOrder e (items.takeWhile isShort) := by
  induction h with
  | nil => exact .nil
  | @header line items hl _ ih =>
    rw [List.takeWhile_cons]
    split
    · exact .header hl ih
    · exact .nil
  | natural _ ih => exact .natural ih
  | code _ ih => exact .code ih
  | missing e which => exact .missing e which

end Item

namespace Registry

theorem buildItem_of_long {i : Item} (h : i.isShort = false) (s : Registry × Progress) :
    ∃ e, buildItem s i = .error e ∧ e.IsLong i.numeral?.toList := by
  have hex : ∃ w, i.numeral? = some w ∧ Numeral.maxLength < w.length := by
    by_contra hnone
    push Not at hnone
    rw [Item.isShort_iff.2 hnone] at h
    cases h
  obtain ⟨w, hw, hlong⟩ := hex
  cases i with
  | header line =>
    refine ⟨.longNumeral w.length, ?_, w, ?_, hlong, rfl⟩
    · simp only [buildItem, Header.read_of_long hw hlong]
    · rw [hw]
      exact List.mem_singleton.2 rfl
  | natural line => cases hw
  | code line => cases hw
  | missing which => cases hw

/-! ### The second pass -/

/-- Whatever the lines are: the second pass fails on them by load errors, at the name of a header
that has not been entered, or at a numeral that is too long. -/
theorem build_fails {reg : Registry} {file : String} {lines : List Text} {e : Failure}
    (he : (reg.build file lines).2 = some e) :
    Stops reg.names (introducedNames lines) e ∨ e.IsLong (weightNumerals lines) := by
  -- in front of the first long numeral the pass goes on as over short ones
  let P : List Item → Registry × Progress → Prop := fun items s =>
    Within reg.names (introducedNames lines) (items.takeWhile Item.isShort) s
  let F : Item → Failure → Prop := fun i e =>
    Stops reg.names (introducedNames lines) e ∨ e.IsLong i.numeral?.toList
  have hstep : ∀ i items s, P (i :: items) s →
      (∃ s', buildItem s i = .ok s' ∧ P items s') ∨ ∃ e, buildItem s i = .error e ∧ F i e := by
    intro i items s hP
    cases hi : i.isShort with
    | true =>
      simp only [P, List.takeWhile_cons, hi, if_true] at hP
      rcases hP.buildItem with hok | ⟨e, hs, hstops⟩
      · exact .inl hok
      · exact .inr ⟨e, hs, .inl hstops⟩
    | false =>
      obtain ⟨e, hs, hlong⟩ := buildItem_of_long hi s
      exact .inr ⟨e, hs, .inr hlong⟩
  have hwithin : P ((Item.scanLines lines).map Prod.snd) (reg, .none) := by
    refine ⟨rfl, ?_, ?_, .header, (Item.inOrder_scan _ _ _).takeWhile_short, trivial⟩
    · intro i hi n hn
      obtain ⟨x, hx, rfl⟩ := List.mem_map.1 (List.takeWhile_subset _ hi)
      exact List.mem_filterMap.2 ⟨x, hx, hn⟩
    · intro i hi
      exact Item.isShort_iff.1 (List.all_eq_true.1 List.all_takeWhile i hi)
  rw [build] at he
  rcases through_cases hstep file hwithin with ⟨⟨reg', q⟩, hs, -⟩ | ⟨⟨reg', q⟩, x, f, hs, hx, hf⟩
  · rw [hs] at he
    cases he
  · rw [hs] at he
    cases he
    rcases hf with hf | hf
    · exact .inl (hf.locate file x.1)
    · refine .inr ((hf.mono ?_).locate file x.1)
      intro w hw
      exact List.mem_filterMap.2 ⟨x, hx, by simpa using hw⟩

end Registry

end PairGrammar
