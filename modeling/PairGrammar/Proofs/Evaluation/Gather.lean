import PairGrammar.Evaluation.Recursive
import PairGrammar.Proofs.Grammar.Closed

/-!
# The recursion over references

The recursion evaluates a variable by gathering the pairs of the names that its production refers
to. Here a variable is taken together with the drawing of its production: `expand` is the pair of a
variable, or how everything stops, and `gather_cons` says what becomes of one name more.

* `gather_induction`: what holds of a name at one level may be proved from what holds of the
  references of its production one level deeper, and from what holds of the names behind it.
* `isSome_lookup_of_gather`: every name that has been gone through has a pair.
* `limitReached_of_gather`, `expand_cases`: in a closed grammar nothing stops but at the limit.
-/

namespace PairGrammar

variable {ρ : Type} [Dice ρ]

/-- The pair of a variable and the dice behind it, or how all evaluations stop. -/
def Grammar.expand (g : Grammar) (n : Name) (d : Depth) (r : ρ) :
    Except (Evaluated ρ) (Pair × ρ) :=
  match g.find? n with
  | none => .error ⟨.undefined n, d, r⟩
  | some v => (v.choose r).1.evaluate g d (v.choose r).2

theorem evaluateNested_eq (g : Grammar) (n : Name) (d : Depth) (r : ρ) :
    g.evaluateNested n d r = match g.expand n d r with
      | .error e => e
      | .ok (value, r') => ⟨.pair value, d, r'⟩ := by
  unfold Grammar.evaluateNested Grammar.expand
  cases g.find? n <;> rfl

theorem expand_of_find? {g : Grammar} {n : Name} {v : Variable} (hv : g.find? n = some v)
    (d : Depth) (r : ρ) :
    g.expand n d r = match gather g (v.choose r).1.references [] d (v.choose r).2 with
      | .error e => .error e
      | .ok (values, r') => match (v.choose r).1.render fun m => values.lookup m with
        | .error m => .error ⟨.undefined m, d, r'⟩
        | .ok value => .ok (value, r') := by
  rw [Grammar.expand, hv]
  dsimp only
  unfold Production.evaluate
  rfl

@[simp] theorem gather_nil (g : Grammar) (values : List (Name × Pair)) (d : Depth) (r : ρ) :
    gather g [] values d r = .ok (values, r) := by
  rw [gather]

theorem gather_cons (g : Grammar) (n : Name) (ns : List Name) (values : List (Name × Pair))
    (d : Depth) (r : ρ) :
    gather g (n :: ns) values d r =
      if d.enter.isBelowLimit then match g.expand n d.enter r with
        | .error e => .error e
        | .ok (value, r') => gather g ns ((n, value) :: values) d r'
      else .error ⟨.limitReached d.limit n, d.enter, r⟩ := by
  rw [gather]
  split
  · cases hv : g.find? n with
    | none => simp [Grammar.expand, hv]
    | some v =>
      cases he : (v.choose r).1.evaluate g d.enter (v.choose r).2 <;>
        simp only [Grammar.expand, hv, he]
  · rfl

/-- Induction along the recursion: the references of a drawn production lie one level deeper, and
the names that are left lie behind. -/
theorem gather_induction {g : Grammar}
    {motive : List Name → List (Name × Pair) → Depth → ρ → Prop}
    (nil : ∀ values d r, motive [] values d r)
    (cons : ∀ n ns values d r,
      (d.enter.isBelowLimit → ∀ v, g.find? n = some v →
        motive (v.choose r).1.references [] d.enter (v.choose r).2) →
      (∀ value r', motive ns ((n, value) :: values) d r') → motive (n :: ns) values d r) :
    ∀ ns values d r, motive ns values d r
  | [], values, d, r => nil values d r
  | n :: ns, values, d, r =>
    cons n ns values d r
      (fun _ v _ => gather_induction nil cons (v.choose r).1.references [] d.enter (v.choose r).2)
      fun value r' => gather_induction nil cons ns ((n, value) :: values) d r'
termination_by ns _ d _ => (d.room, ns.length)
decreasing_by
  · next hd _ =>
    have := Depth.room_enter_succ hd
    exact Prod.Lex.left _ _ (by omega)
  · exact Prod.Lex.right _ (Nat.lt_succ_self _)

/-! ### Pairs that have been recorded -/

theorem isSome_lookup_cons {n m : Name} {value : Pair} {values : List (Name × Pair)} :
    (((n, value) :: values).lookup m).isSome ↔ m = n ∨ (values.lookup m).isSome := by
  rw [List.lookup_cons]
  split <;> simp_all

/-- Names that have been gone through have a pair, and so have those that had one. -/
theorem isSome_lookup_of_gather {g : Grammar} {ns : List Name} {values values' : List (Name × Pair)}
    {d : Depth} {r r' : ρ} (h : gather g ns values d r = .ok (values', r')) {m : Name}
    (hm : m ∈ ns ∨ (values.lookup m).isSome) : (values'.lookup m).isSome := by
  induction ns generalizing values r with
  | nil =>
    rw [gather_nil] at h
    cases h
    simpa using hm
  | cons n ns ih =>
    rw [gather_cons] at h
    split at h
    · split at h
      · cases h
      · refine ih h ?_
        rw [isSome_lookup_cons]
        rcases hm with hm | hm
        · rcases List.mem_cons.1 hm with rfl | hm
          · exact .inr (.inl rfl)
          · exact .inl hm
        · exact .inr (.inr hm)
    · cases h

/-- With the pairs of all its references a production can be rendered. -/
theorem render_isOk_of_gather {g : Grammar} {p : Production} {values : List (Name × Pair)}
    {d : Depth} {r r' : ρ} (h : gather g p.references [] d r = .ok (values, r')) :
    ∃ value, p.render (fun m => values.lookup m) = .ok value :=
  p.render_isOk fun _ hm => isSome_lookup_of_gather h (.inl hm)

/-! ### Closed grammars -/

/-- In a closed grammar nothing stops an evaluation but the limit. -/
theorem limitReached_of_gather {g : Grammar} (hg : g.IsClosed) {ns : List Name}
    {values : List (Name × Pair)} {d : Depth} {r : ρ} {e : Evaluated ρ}
    (hns : ∀ m ∈ ns, (g.find? m).isSome) (h : gather g ns values d r = .error e) :
    ∃ m, e.outcome = .limitReached d.limit m := by
  induction ns, values, d, r using @gather_induction ρ _ g generalizing e with
  | nil values d r => simp at h
  | cons n ns values d r deeper behind =>
    obtain ⟨v, hv⟩ := Option.isSome_iff_exists.1 (hns n List.mem_cons_self)
    rw [gather_cons] at h
    split at h
    · next hd =>
      rw [expand_of_find? hv] at h
      cases hi : gather g (v.choose r).1.references [] d.enter (v.choose r).2 with
      | error e' =>
        simp only [hi] at h
        cases h
        exact deeper hd v hv (fun m hm => hg.isSome_of_choose hv hm) hi
      | ok x =>
        obtain ⟨value, hvalue⟩ := render_isOk_of_gather hi
        simp only [hi, hvalue] at h
        exact behind value x.2 (fun m hm => hns m (List.mem_cons_of_mem _ hm)) h
    · cases h
      exact ⟨n, rfl⟩

/-- A variable of a closed grammar has a pair, or the limit is reached. -/
theorem expand_cases {g : Grammar} (hg : g.IsClosed) {n : Name} (hn : (g.find? n).isSome)
    (d : Depth) (r : ρ) :
    (∃ value r', g.expand n d r = .ok (value, r')) ∨
      ∃ m d' r', g.expand n d r = .error ⟨.limitReached d.limit m, d', r'⟩ := by
  obtain ⟨v, hv⟩ := Option.isSome_iff_exists.1 hn
  rw [expand_of_find? hv]
  cases h : gather g (v.choose r).1.references [] d (v.choose r).2 with
  | error e =>
    obtain ⟨m, hm⟩ := limitReached_of_gather hg (fun m hm => hg.isSome_of_choose hv hm) h
    exact .inr ⟨m, e.depth, e.dice, by rw [← hm]⟩
  | ok x =>
    obtain ⟨value, hvalue⟩ := render_isOk_of_gather h
    exact .inl ⟨value, x.2, by simp only [hvalue]⟩

end PairGrammar
