import Mathlib.Data.List.TakeWhile
import PairGrammar.Block
import PairGrammar.Proofs.Text.Blanks

/-!
# Edits that a scan does not see

Blanks at the end of a line are trimmed before anything looks at the line, and where a header is
expected every other line is skipped. So blanks may be appended to lines, and comments and blank
lines may be put between blocks, and a scan comes upon the same items. Only the numbers of their
lines change: a line that is put in moves all lines behind it by one.

* `scan_cons`: a scan as a machine that takes one line after the other.
* `scan_congr`: it looks at the trimmed lines only.
* `scan_insert`: a skipped line moves the items behind it.
* `scanLines_of_edited`: so any number of edits moves the items of a scan.
-/

namespace PairGrammar

theorem Text.trimRight_append_of_isBlank (t : Text) {blanks : Text} (h : ∀ c ∈ blanks, isBlank c) :
    (t ++ blanks).trimRight = t.trimRight := by
  have hdrop : blanks.reverse.dropWhile isBlank = [] :=
    List.dropWhile_eq_nil_iff.2 fun c hc => h c (List.mem_reverse.1 hc)
  rw [trimRight, List.reverse_append, List.dropWhile_append, hdrop]
  rfl

namespace Item

/-! ### A scan line by line -/

/-- What a scan comes upon at a trimmed line. -/
def Expected.found : Expected → (line : Text) → List Item
  | .header, line => if Header.isHeader line then [.header line] else []
  | .natural, line => if line = [] then [.missing .second] else [.natural line]
  | .code, line => if line = [] then [.missing .third] else [.code line]

/-- What is expected behind a trimmed line: nothing any more, if it is blank where a content line
has to be. -/
def Expected.next : Expected → (line : Text) → Option Expected
  | .header, line => some (if Header.isHeader line then .natural else .header)
  | .natural, line => if line = [] then none else some .code
  | .code, line => if line = [] then none else some .header

/-- What is expected behind lines. -/
def Expected.behind (e : Expected) (ls : List Text) : Option Expected :=
  ls.foldlM (fun e l => e.next l.trimRight) e

theorem scan_cons (e : Expected) (k : Nat) (l : Text) (ls : List Text) :
    scan e k (l :: ls) = (e.found l.trimRight).map (Prod.mk (k + 1)) ++
      (e.next l.trimRight).elim [] fun e' => scan e' (k + 1) ls := by
  cases e with
  | header =>
    by_cases hl : Header.isHeader l.trimRight
    · simp [scan, Expected.found, Expected.next, hl]
    · simp [scan, Expected.found, Expected.next, hl]
  | natural =>
    by_cases hl : l.trimRight = []
    · simp [scan, Expected.found, Expected.next, hl]
    · simp [scan, Expected.found, Expected.next, hl]
  | code =>
    by_cases hl : l.trimRight = []
    · simp [scan, Expected.found, Expected.next, hl]
    · simp [scan, Expected.found, Expected.next, hl]

theorem scan_congr {ls ms : List Text} (h : ls.map Text.trimRight = ms.map Text.trimRight)
    (e : Expected) (k : Nat) : scan e k ls = scan e k ms := by
  induction ls generalizing ms e k with
  | nil =>
    cases ms with
    | nil => rfl
    | cons m ms => cases h
  | cons l ls ih =>
    cases ms with
    | nil => cases h
    | cons m ms =>
      rw [List.map_cons, List.map_cons, List.cons.injEq] at h
      obtain ⟨hl, hls⟩ := h
      have hrest : ∀ e', scan e' (k + 1) ls = scan e' (k + 1) ms := fun e' => ih hls e' (k + 1)
      simp only [scan_cons, hl, hrest]

/-- All items are found in lines that have not been read yet; the last line that has been read is at
fault where the input ends within a block. -/
theorem le_of_mem_scan {e : Expected} {k : Nat} {ls : List Text} {x : Nat × Item}
    (h : x ∈ scan e k ls) : k ≤ x.1 ∧ (e = .header → k < x.1) := by
  induction ls generalizing e k with
  | nil =>
    cases e with
    | header => cases h
    | natural | code =>
      cases List.mem_singleton.1 h
      exact ⟨Nat.le_refl k, nofun⟩
  | cons l ls ih =>
    rw [scan_cons, List.mem_append] at h
    rcases h with h | h
    · obtain ⟨i, -, rfl⟩ := List.mem_map.1 h
      exact ⟨Nat.le_succ k, fun _ => Nat.lt_succ_self k⟩
    · cases hnext : e.next l.trimRight with
      | none =>
        rw [hnext] at h
        cases h
      | some e' =>
        rw [hnext] at h
        have hk : k + 1 ≤ x.1 := (ih h).1
        exact ⟨by omega, fun _ => by omega⟩

/-! ### Other numbers -/

/-- Items whose lines have got other numbers. -/
def renumber (move : Nat → Nat) (items : List (Nat × Item)) : List (Nat × Item) :=
  items.map (Prod.map move id)

theorem renumber_append (move : Nat → Nat) (items items' : List (Nat × Item)) :
    renumber move (items ++ items') = renumber move items ++ renumber move items' :=
  List.map_append

theorem renumber_found (move : Nat → Nat) (k : Nat) (found : List Item) :
    renumber move (found.map (Prod.mk k)) = found.map (Prod.mk (move k)) := by
  rw [renumber, List.map_map]
  rfl

/-- The lines may be counted from one more. -/
theorem scan_succ (e : Expected) (k : Nat) (ls : List Text) :
    scan e (k + 1) ls = renumber (· + 1) (scan e k ls) := by
  induction ls generalizing e k with
  | nil => cases e <;> rfl
  | cons l ls ih =>
    rw [scan_cons, scan_cons, renumber_append, renumber_found]
    cases e.next l.trimRight with
    | none => rfl
    | some e' => exact congrArg _ (ih e' (k + 1))

/-- The number of a line after another one has been put in behind the first `p` lines. -/
def moveBehind (p k : Nat) : Nat := if k ≤ p then k else k + 1

theorem moveBehind_of_le {p k : Nat} (h : k ≤ p) : moveBehind p k = k := if_pos h

theorem moveBehind_of_lt {p k : Nat} (h : p < k) : moveBehind p k = k + 1 :=
  if_neg (Nat.not_le.2 h)

/-- A line that is skipped may be put in wherever a header is expected. -/
theorem scan_insert {before : List Text} {l : Text} (hl : Header.isHeader l.trimRight = false)
    (after : List Text) {e : Expected} (he : ∀ e' ∈ e.behind before, e' = .header) (k : Nat) :
    scan e k (before ++ l :: after) =
      renumber (moveBehind (k + before.length)) (scan e k (before ++ after)) := by
  induction before generalizing e k with
  | nil =>
    obtain rfl : e = .header := he e rfl
    rw [List.nil_append, List.nil_append, scan, if_neg (by simp [hl]), scan_succ]
    refine List.map_congr_left fun x hx => ?_
    have hlt : k < x.1 := (le_of_mem_scan hx).2 rfl
    have hmove : moveBehind (k + 0) x.1 = x.1 + 1 := moveBehind_of_lt hlt
    exact Prod.ext hmove.symm rfl
  | cons b before ih =>
    have hfirst : moveBehind (k + (b :: before).length) (k + 1) = k + 1 := by
      rw [List.length_cons]
      exact moveBehind_of_le (by omega)
    have hlength : k + 1 + before.length = k + (b :: before).length := by
      rw [List.length_cons]
      omega
    rw [List.cons_append, List.cons_append, scan_cons, scan_cons, renumber_append, renumber_found,
      hfirst]
    refine congrArg _ ?_
    cases hnext : e.next b.trimRight with
    | none => rfl
    | some e' =>
      have he' : ∀ e'' ∈ e'.behind before, e'' = .header := by
        rw [Expected.behind, List.foldlM_cons, hnext] at he
        exact he
      have hrest := ih he' (k + 1)
      rw [hlength] at hrest
      exact hrest

end Item

/-! ### Any number of edits -/

open Item (Expected moveBehind renumber scanLines)

/-- What has become of lines when blanks have been appended to some of them, and others that are
skipped have been put in where a header is expected; and what has become of their numbers. -/
inductive Edited (lines : List Text) : List Text → (move : Nat → Nat) → Prop
  | refl : Edited lines lines id
  | extend {before after : List Text} {l blanks : Text} {move : Nat → Nat} :
      Edited lines (before ++ l :: after) move → (∀ c ∈ blanks, isBlank c) →
      Edited lines (before ++ (l ++ blanks) :: after) move
  | insert {before after : List Text} {l : Text} {move : Nat → Nat} :
      Edited lines (before ++ after) move → (∀ e ∈ Expected.header.behind before, e = .header) →
      Header.isHeader l.trimRight = false →
      Edited lines (before ++ l :: after) (moveBehind before.length ∘ move)

/-- A scan of edited lines comes upon the same items at the lines that theirs have become. -/
theorem scanLines_of_edited {lines lines' : List Text} {move : Nat → Nat}
    (h : Edited lines lines' move) : scanLines lines' = renumber move (scanLines lines) := by
  induction h with
  | refl => exact (List.map_id _).symm
  | @extend before after l blanks move _ hblanks ih =>
    rw [← ih]
    refine Item.scan_congr ?_ .header 0
    rw [List.map_append, List.map_append, List.map_cons, List.map_cons,
      Text.trimRight_append_of_isBlank l hblanks]
  | @insert before after l move _ he hl ih =>
    have hinsert := Item.scan_insert hl after he 0
    rw [Nat.zero_add] at hinsert
    show Item.scan .header 0 (before ++ l :: after) = _
    rw [hinsert]
    show renumber (moveBehind before.length) (scanLines (before ++ after)) = _
    rw [ih, renumber, renumber, renumber, List.map_map, Prod.map_comp_map]
    rfl

end PairGrammar
