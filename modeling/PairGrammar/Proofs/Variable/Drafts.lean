import PairGrammar.Proofs.Loader.Reordering
import PairGrammar.Variable

/-!
# Drafts as logs

A draft keeps a log of productions and their weights. A production is entered at the end as long as
the sum of the weights stays in range, so a weight may be refused and a lighter one taken later. The
draft can be frozen once: from then on nothing is entered, and it gives the same variable whenever
it is asked for one.

* `answer_cases`: all that a request can do to a draft.
* `IsLogged`: a draft and what it has answered so far; `IsLogged.answer` and `IsLogged.serve` say
  that this is kept by a request, and by any number of them.
* `served_as_log`: what a draft answers next, from what it has answered so far.
-/

namespace PairGrammar

/-! ### The total of effective weights -/

namespace Weights

theorem total_eq_zero_iff (ws : List Nat) : total ws = 0 ↔ ws.all (· == 0) := by
  induction ws with
  | nil => simp
  | cons w ws ih => rw [total_cons, Nat.add_eq_zero_iff, ih, List.all_cons]; simp

theorem total_ones (ws : List Nat) : total (ws.map fun _ => 1) = ws.length := by
  induction ws with
  | nil => rfl
  | cons w ws ih => rw [List.map_cons, total_cons, ih, List.length_cons, Nat.add_comm]

theorem total_effective (ws : List Nat) :
    total (effective ws) = if total ws = 0 then ws.length else total ws := by
  by_cases h : total ws = 0
  · rw [if_pos h, effective, if_pos ((total_eq_zero_iff ws).1 h), total_ones]
  · rw [if_neg h, effective, if_neg fun hall => h ((total_eq_zero_iff ws).2 hall)]

end Weights

/-- The sampler has the total of the weights, or counts the productions if that is zero. -/
theorem Variable.total_sampler (v : Variable) :
    v.sampler.total =
      if Weights.total v.weights = 0 then v.entries.length else Weights.total v.weights := by
  show Weights.total (Weights.effective v.weights) = _
  rw [Weights.total_effective, weights, List.length_map]

namespace Draft

/-! ### Requests -/

/-- What may be asked of a draft. -/
inductive Request
  | insert (p : Production) (weight : Int)
  | overflows (weight : Int)
  | finish
  deriving DecidableEq

inductive Answer
  | truth (b : Bool)
  | frozen (v : Variable)
  | failed (e : Failure)
  deriving DecidableEq

/-- The answer to a request, and the draft behind it. -/
def answer (d : Draft) : Request → Answer × Draft
  | .insert p weight => match d.insert p weight with
    | .error e => (.failed e, d)
    | .ok none => (.truth false, d)
    | .ok (some d') => (.truth true, d')
  | .overflows weight => (.truth (d.overflows weight), d)
  | .finish => match d.finish with
    | .error e => (.failed e, d)
    | .ok (v, d') => (.frozen v, d')

/-- Requests with their answers, in the order of time. -/
abbrev Transcript := List (Request × Answer)

/-- The transcript of requests that are made one after the other, and the draft behind them. -/
def serve (d : Draft) : List Request → Transcript × Draft
  | [] => ([], d)
  | q :: qs => ((q, (d.answer q).1) :: ((d.answer q).2.serve qs).1, ((d.answer q).2.serve qs).2)

/-- What a request has entered into the log. -/
def entered? : Request × Answer → Option (Production × Nat)
  | (.insert p weight, .truth true) => some (p, weight.toNat)
  | _ => none

/-- The log of all that has been entered. -/
def log (t : Transcript) : List (Production × Nat) := t.filterMap entered?

/-- The draft has been frozen, and has given this variable. -/
def HasFrozen (t : Transcript) (v : Variable) : Prop := ∃ x ∈ t, x.2 = .frozen v

variable {d : Draft} {t : Transcript} {name : Name} {q : Request} {a : Answer} {v : Variable}

theorem map_fst_serve (d : Draft) (qs : List Request) : (d.serve qs).1.map Prod.fst = qs := by
  induction qs generalizing d with
  | nil => rfl
  | cons q qs ih => rw [serve, List.map_cons, ih]

theorem hasFrozen_concat : HasFrozen (t ++ [(q, a)]) v ↔ HasFrozen t v ∨ a = .frozen v := by
  simp [HasFrozen, or_and_right, exists_or]

theorem log_concat (t : Transcript) (x : Request × Answer) :
    log (t ++ [x]) = log t ++ (entered? x).toList := by
  rw [log, List.filterMap_append]
  cases hx : entered? x <;> simp [log, hx]

/-! ### One request -/

theorem overflows_iff {w : Int} : d.overflows w ↔ (maxWeight : Int) < d.total + w := by
  rw [overflows, decide_eq_true_eq]

theorem answer_insert_of_neg {p : Production} {w : Int} (hw : w < 0) :
    d.answer (.insert p w) = (.failed .brokenPromise, d) := by
  rw [Draft.answer, Draft.insert, if_pos hw]

/-- A production with a weight that is not negative is entered if the draft is open and the sum
stays in range. -/
theorem answer_insert {p : Production} {w : Int} (hw : 0 ≤ w) :
    ∃ b, (b = true ↔ d.isSealed = false ∧ d.total + w ≤ (maxWeight : Int)) ∧
      d.answer (.insert p w) =
        (.truth b, if b then { d with entries := d.entries ++ [(p, w.toNat)] } else d) := by
  have hneg : ¬ w < 0 := by omega
  by_cases h : d.isSealed || d.overflows w
  · refine ⟨false, ?_, ?_⟩
    · rw [Bool.or_eq_true, overflows_iff] at h
      rcases h with h | h
      · simp [h]
      · simp only [Bool.false_eq_true, false_iff, not_and]
        omega
    · rw [Draft.answer, Draft.insert, if_neg hneg, if_pos h]
      rfl
  · refine ⟨true, ?_, ?_⟩
    · rw [Bool.or_eq_true, overflows_iff, not_or, Bool.not_eq_true] at h
      exact iff_of_true rfl ⟨h.1, by omega⟩
    · rw [Draft.answer, Draft.insert, if_neg hneg, if_neg h]
      rfl

theorem answer_finish_of_nil (h : d.entries = []) :
    d.answer .finish = (.failed (.ofFault (.emptyVariable d.name)), d) := by
  rw [Draft.answer, Draft.finish, dif_pos h]

theorem answer_finish (h : d.entries ≠ []) :
    d.answer .finish = (.frozen ⟨d.name, d.entries, h⟩, { d with isSealed := true }) := by
  rw [Draft.answer, Draft.finish, dif_neg h]

theorem eq_of_answer_finish (h : (d.answer .finish).1 = .frozen v) :
    v.name = d.name ∧ v.entries = d.entries := by
  by_cases hne : d.entries = []
  · rw [answer_finish_of_nil hne] at h
    cases h
  · rw [answer_finish hne] at h
    cases h
    exact ⟨rfl, rfl⟩

/-- A request leaves a draft as it is, or enters a production, or freezes it. -/
theorem answer_cases (d : Draft) (q : Request) :
    (entered? (q, (d.answer q).1) = none ∧ (∀ v, (d.answer q).1 ≠ .frozen v) ∧
      (d.answer q).2 = d) ∨
    (∃ x, entered? (q, (d.answer q).1) = some x ∧ (∀ v, (d.answer q).1 ≠ .frozen v) ∧
      d.isSealed = false ∧ d.total + x.2 ≤ maxWeight ∧
      (d.answer q).2 = { d with entries := d.entries ++ [x] }) ∨
    ∃ h : d.entries ≠ [], entered? (q, (d.answer q).1) = none ∧
      (d.answer q).1 = .frozen ⟨d.name, d.entries, h⟩ ∧
      (d.answer q).2 = { d with isSealed := true } := by
  cases q with
  | insert p w =>
    by_cases hw : w < 0
    · rw [answer_insert_of_neg hw]
      exact .inl ⟨rfl, nofun, rfl⟩
    · obtain ⟨b, hb, hanswer⟩ := d.answer_insert (p := p) (Int.not_lt.1 hw)
      rw [hanswer]
      cases b with
      | false => exact .inl ⟨rfl, nofun, rfl⟩
      | true =>
        obtain ⟨hopen, hle⟩ := hb.1 rfl
        refine .inr (.inl ⟨(p, w.toNat), rfl, nofun, hopen, ?_, rfl⟩)
        show d.total + w.toNat ≤ maxWeight
        omega
  | overflows w => exact .inl ⟨rfl, nofun, rfl⟩
  | finish =>
    by_cases h : d.entries = []
    · rw [answer_finish_of_nil h]
      exact .inl ⟨rfl, nofun, rfl⟩
    · rw [answer_finish h]
      exact .inr (.inr ⟨h, rfl, rfl, rfl⟩)

/-! ### Any number of requests -/

/-- What holds of a draft and of its transcript since it was new. -/
structure IsLogged (name : Name) (t : Transcript) (d : Draft) : Prop where
  name_eq : d.name = name
  entries_eq : d.entries = log t
  total_le : d.total ≤ maxWeight
  of_hasFrozen : ∀ v, HasFrozen t v → v.name = d.name ∧ v.entries = d.entries ∧ d.isSealed
  of_isSealed : d.isSealed → ∃ v, HasFrozen t v

namespace IsLogged

theorem new (name : Name) : IsLogged name [] { name := name } where
  name_eq := rfl
  entries_eq := rfl
  total_le := Nat.zero_le _
  of_hasFrozen := by
    rintro v ⟨x, hx, -⟩
    cases hx
  of_isSealed := nofun

/-- One request more. -/
theorem answer (h : IsLogged name t d) (q : Request) :
    IsLogged name (t ++ [(q, (d.answer q).1)]) (d.answer q).2 := by
  rcases d.answer_cases q with ⟨hnone, hfrozen, hsame⟩ | ⟨x, hx, hfrozen, hopen, hle, hentered⟩ |
    ⟨hne, hnone, hanswer, hsealed⟩
  · rw [hsame]
    refine ⟨h.name_eq, ?_, h.total_le, fun v hv => ?_, fun hd => ?_⟩
    · rw [log_concat, hnone, Option.toList_none, List.append_nil]
      exact h.entries_eq
    · exact h.of_hasFrozen v ((hasFrozen_concat.1 hv).resolve_right (hfrozen v))
    · obtain ⟨v, hv⟩ := h.of_isSealed hd
      exact ⟨v, hasFrozen_concat.2 (.inl hv)⟩
  · rw [hentered]
    refine ⟨h.name_eq, ?_, ?_, fun v hv => ?_, fun hd => ?_⟩
    · rw [log_concat, hx, Option.toList_some, ← h.entries_eq]
    · have htotal : Weights.total ((d.entries ++ [x]).map Prod.snd) = d.total + x.2 := by
        rw [List.map_append, Weights.total_append]
        rfl
      show Weights.total ((d.entries ++ [x]).map Prod.snd) ≤ maxWeight
      rw [htotal]
      exact hle
    · -- nothing is entered into a draft that has been frozen
      obtain ⟨-, -, hd⟩ := h.of_hasFrozen v ((hasFrozen_concat.1 hv).resolve_right (hfrozen v))
      rw [hopen] at hd
      cases hd
    · have hd : d.isSealed = true := hd
      rw [hopen] at hd
      cases hd
  · rw [hsealed]
    refine ⟨h.name_eq, ?_, h.total_le, fun v hv => ?_, fun _ => ?_⟩
    · rw [log_concat, hnone, Option.toList_none, List.append_nil]
      exact h.entries_eq
    · rcases hasFrozen_concat.1 hv with hv | hv
      · obtain ⟨hname, hentries, -⟩ := h.of_hasFrozen v hv
        exact ⟨hname, hentries, rfl⟩
      · cases hanswer.symm.trans hv
        exact ⟨rfl, rfl, rfl⟩
    · exact ⟨_, hasFrozen_concat.2 (.inr hanswer)⟩

theorem serve (h : IsLogged name t d) (qs : List Request) :
    IsLogged name (t ++ (d.serve qs).1) (d.serve qs).2 := by
  induction qs generalizing t d with
  | nil =>
    rw [Draft.serve, List.append_nil]
    exact h
  | cons q qs ih =>
    have hrest := ih (h.answer q)
    rw [List.append_assoc, List.singleton_append] at hrest
    exact hrest

/-- What has been frozen stays as it is, and is what the draft gives again. -/
theorem answer_finish_of_hasFrozen (h : IsLogged name t d) (hv : HasFrozen t v) :
    d.answer .finish = (.frozen v, d) := by
  obtain ⟨hname, hentries, hsealed⟩ := h.of_hasFrozen v hv
  have hne : d.entries ≠ [] := by
    rw [← hentries]
    exact v.entries_ne_nil
  have hv' : v = ⟨d.name, d.entries, hne⟩ := by
    obtain ⟨vname, ventries, vne⟩ := v
    cases hname
    cases hentries
    rfl
  have hd : ({ d with isSealed := true } : Draft) = d := by rw [← hsealed]
  rw [answer_finish hne, hd, hv']

end IsLogged

/-- What a draft that was new before the requests `qs` answers next. With a weight that is not
negative a production is entered if and only if the draft has not been frozen and the sum of all
weights stays in range; what is refused or fails leaves the draft as it is. The log holds what has
been entered, in this order, and the total is the sum of its weights. An empty draft cannot be
frozen. Any other one gives a variable with the productions and weights of the log, and from then on
that variable whenever it is asked for one; its sampler has the total of the draft, or counts the
productions if that is zero. -/
theorem served_as_log (name : Name) (qs : List Request) :
    let t := (serve { name := name } qs).1
    let d := (serve { name := name } qs).2
    let sum := ((log t).map Prod.snd).sum
    t.map Prod.fst = qs ∧ d.name = name ∧ d.entries = log t ∧ d.total = sum ∧ sum ≤ maxWeight ∧
    (d.isSealed ↔ ∃ v, HasFrozen t v) ∧
    (∀ (p : Production) (w : Int), 0 ≤ w →
      ∃ b, (b = true ↔ (¬ ∃ v, HasFrozen t v) ∧ sum + w ≤ (maxWeight : Int)) ∧
        d.answer (.insert p w) =
          (.truth b, if b then { d with entries := log t ++ [(p, w.toNat)] } else d)) ∧
    (∀ (p : Production) (w : Int), w < 0 → d.answer (.insert p w) = (.failed .brokenPromise, d)) ∧
    (∀ w : Int, ∃ b, (b = true ↔ (maxWeight : Int) < sum + w) ∧
      d.answer (.overflows w) = (.truth b, d)) ∧
    (log t = [] → d.answer .finish = (.failed (.ofFault (.emptyVariable name)), d)) ∧
    (log t ≠ [] → ∃ v, d.answer .finish = (.frozen v, { d with isSealed := true })) ∧
    (∀ v, HasFrozen t v → d.answer .finish = (.frozen v, d)) ∧
    ∀ v, (d.answer .finish).1 = .frozen v → v.name = name ∧ v.entries = log t ∧
      v.sampler.total = if sum = 0 then (log t).length else sum := by
  intro t d sum
  have h : IsLogged name t d := (IsLogged.new name).serve qs
  have htotal : d.total = sum := by
    show Weights.total (d.entries.map Prod.snd) = sum
    rw [h.entries_eq, Weights.total_eq_sum]
  have hsealed : d.isSealed ↔ ∃ v, HasFrozen t v :=
    ⟨h.of_isSealed, fun ⟨v, hv⟩ => (h.of_hasFrozen v hv).2.2⟩
  refine ⟨map_fst_serve _ qs, h.name_eq, h.entries_eq, htotal, htotal ▸ h.total_le, hsealed,
    fun p w hw => ?_, fun p w hw => answer_insert_of_neg hw, fun w => ?_, fun hnil => ?_,
    fun hne => ?_, fun v hv => h.answer_finish_of_hasFrozen hv, fun v hv => ?_⟩
  · obtain ⟨b, hb, hanswer⟩ := d.answer_insert (p := p) hw
    rw [← Bool.not_eq_true, hsealed, htotal] at hb
    rw [h.entries_eq] at hanswer
    exact ⟨b, hb, hanswer⟩
  · refine ⟨d.overflows w, ?_, rfl⟩
    rw [overflows_iff, htotal]
  · rw [answer_finish_of_nil (h.entries_eq.trans hnil), h.name_eq]
  · rw [← h.entries_eq] at hne
    exact ⟨_, answer_finish hne⟩
  · obtain ⟨hname, hentries⟩ := eq_of_answer_finish hv
    have hweights : Weights.total v.weights = sum := by
      rw [Variable.weights, hentries]
      exact htotal
    refine ⟨hname.trans h.name_eq, hentries.trans h.entries_eq, ?_⟩
    rw [v.total_sampler, hweights, hentries, h.entries_eq]

/-- Two is too much for what is left, and one is not; zero is taken even then. Once it is frozen the
draft does not take a zero, either. -/
theorem served_as_log_full :
    let p : Production := ⟨[.literal ['x']], [.reference ['a']]⟩
    let qs : List Request := [.finish, .insert p 9223372036854775806, .insert p 2, .insert p 1,
      .insert p 0, .overflows 1, .finish]
    let t := (serve { name := ['a'] } qs).1
    let d := (serve { name := ['a'] } qs).2
    let v : Variable :=
      ⟨['a'], [(p, 9223372036854775806), (p, 1), (p, 0)], List.cons_ne_nil _ _⟩
    t.map Prod.snd = [.failed (.ofFault (.emptyVariable ['a'])), .truth true, .truth false,
      .truth true, .truth true, .truth true, .frozen v] ∧
    d.answer (.insert p 0) = (.truth false, d) ∧
    d.answer (.insert p (-1)) = (.failed .brokenPromise, d) ∧
    d.answer .finish = (.frozen v, d) ∧ v.sampler.total = 9223372036854775807 := by
  intro p qs t d v
  have hanswers : t.map Prod.snd = [.failed (.ofFault (.emptyVariable ['a'])), .truth true,
      .truth false, .truth true, .truth true, .truth true, .frozen v] := by decide +kernel
  have hmem : Answer.frozen v ∈ t.map Prod.snd := by
    rw [hanswers]
    simp
  have hv : HasFrozen t v := List.mem_map.1 hmem
  obtain ⟨-, -, -, -, -, -, hinsert, hneg, -, -, -, hfinish, hvariable⟩ := served_as_log ['a'] qs
  obtain ⟨b, hb, hanswer⟩ := hinsert p 0 (by decide)
  have hfalse : b = false := by
    rw [← Bool.not_eq_true, hb]
    exact fun hopen => hopen.1 ⟨v, hv⟩
  subst hfalse
  have hsame : d.answer .finish = (.frozen v, d) := hfinish v hv
  obtain ⟨-, hentries, htotal⟩ := hvariable v (congrArg Prod.fst hsame)
  rw [← hentries] at htotal
  exact ⟨hanswers, hanswer, hneg p (-1) (by decide), hsame, htotal⟩

end Draft

end PairGrammar
