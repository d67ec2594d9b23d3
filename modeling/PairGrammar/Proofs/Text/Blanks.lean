import Mathlib.Data.List.Chain
import PairGrammar.Pair
import PairGrammar.Text.Split

/-!
# Blanks at the ends of texts

Which texts start or end with a blank, what is left when one blank is dropped at their start, and
what trimming leaves. `Text.IsSpaced` says that no two blanks stand side by side, and `Text.IsTidy`
that in addition there is no blank at either end.
-/

namespace PairGrammar

variable {s t : Text} {c : Char}

def startsBlank (t : Text) : Bool := t.head?.any isBlank

@[simp] theorem startsBlank_nil : startsBlank [] = false := rfl

@[simp] theorem startsBlank_cons (c : Char) (t : Text) : startsBlank (c :: t) = isBlank c := rfl

@[simp] theorem endsBlank_nil : endsBlank [] = false := rfl

@[simp] theorem endsBlank_concat (s : Text) (c : Char) : endsBlank (s ++ [c]) = isBlank c := by
  simp [endsBlank]

theorem endsBlank_append (s : Text) (ht : t ≠ []) : endsBlank (s ++ t) = endsBlank t := by
  rw [endsBlank, endsBlank, List.getLast?_append_of_ne_nil s ht]

theorem startsBlank_append (hs : startsBlank s) (t : Text) : startsBlank (s ++ t) := by
  cases s with
  | nil => cases hs
  | cons c s => exact hs

theorem exists_of_endsBlank (h : endsBlank t) : ∃ s c, t = s ++ [c] ∧ isBlank c := by
  rcases List.eq_nil_or_concat t with rfl | ⟨s, c, rfl⟩
  · cases h
  · rw [List.concat_eq_append, endsBlank_concat] at h
    exact ⟨s, c, List.concat_eq_append, h⟩

/-- What is dropped at the start of a text is one blank, or nothing. -/
theorem dropBlank_cases (t : Text) :
    (∃ c r, t = c :: r ∧ isBlank c ∧ dropBlank t = r) ∨
      startsBlank t = false ∧ dropBlank t = t := by
  cases t with
  | nil => exact .inr ⟨rfl, rfl⟩
  | cons c r =>
    cases hc : isBlank c with
    | true => exact .inl ⟨c, r, rfl, hc, by rw [dropBlank, if_pos hc]⟩
    | false => exact .inr ⟨hc, by rw [dropBlank, if_neg (by rw [hc]; exact Bool.false_ne_true)]⟩

namespace Text

/-- No two blanks stand side by side. -/
def IsSpaced (t : Text) : Prop := t.IsChain fun c d => isBlank c → isBlank d = false

instance : DecidablePred IsSpaced := fun t =>
  inferInstanceAs (Decidable (t.IsChain fun c d => isBlank c → isBlank d = false))

/-- Blanks stand one by one, and none stands at an end. -/
structure IsTidy (t : Text) : Prop where
  starts : startsBlank t = false
  ends : endsBlank t = false
  spaced : t.IsSpaced

theorem isTidy_nil : IsTidy [] := ⟨rfl, rfl, .nil⟩

/-- Two texts have no blanks side by side if neither has, and if no blanks meet between them. -/
theorem isSpaced_append : (s ++ t).IsSpaced ↔
    s.IsSpaced ∧ t.IsSpaced ∧ (endsBlank s → startsBlank t = false) := by
  rw [IsSpaced, List.isChain_append]
  refine and_congr_right fun _ => and_congr_right fun _ => ?_
  constructor
  · intro h hs
    obtain ⟨s, c, rfl, hc⟩ := exists_of_endsBlank hs
    cases t with
    | nil => rfl
    | cons d t => exact h c (by simp) d (by simp) hc
  · intro h c hc d hd hblank
    obtain ⟨t, rfl⟩ := List.head?_eq_some_iff.1 hd
    refine h ?_
    rw [endsBlank, hc]
    exact hblank

theorem startsBlank_of_isSpaced_cons (h : IsSpaced (c :: t)) (hc : isBlank c) :
    startsBlank t = false :=
  ((isSpaced_append (s := [c])).1 h).2.2 hc

/-! ### Trimming -/

theorem startsBlank_reverse (t : Text) : startsBlank t.reverse = endsBlank t := by
  rw [startsBlank, endsBlank, List.head?_reverse]

theorem trimRight_eq (t : Text) : t.trimRight = (trimLeft t.reverse).reverse := rfl

theorem startsBlank_trimLeft (t : Text) : startsBlank t.trimLeft = false := by
  cases h : t.trimLeft with
  | nil => rfl
  | cons c r => exact head_trimLeft_not_blank h

theorem endsBlank_trimRight (t : Text) : endsBlank t.trimRight = false := by
  rw [← startsBlank_reverse, trimRight_eq, List.reverse_reverse]
  exact startsBlank_trimLeft _

theorem trimLeft_of_startsBlank_eq_false (h : startsBlank t = false) : t.trimLeft = t := by
  cases t with
  | nil => rfl
  | cons c r => rw [trimLeft, List.dropWhile_cons_of_neg (by simpa using h)]

theorem trimRight_of_endsBlank_eq_false (h : endsBlank t = false) : t.trimRight = t := by
  rw [← startsBlank_reverse] at h
  rw [trimRight_eq, trimLeft_of_startsBlank_eq_false h, List.reverse_reverse]

/-- Blanks that are removed on the left leave the end of a text as it is. -/
theorem endsBlank_trimLeft (h : endsBlank t = false) : endsBlank t.trimLeft = false := by
  have hsplit : t.takeWhile isBlank ++ t.trimLeft = t := List.takeWhile_append_dropWhile
  by_cases hnil : t.trimLeft = []
  · rw [hnil]
    rfl
  · rw [← endsBlank_append _ hnil, hsplit]
    exact h

/-- A text without a blank at its end is trimmed on both sides by trimming it on the left. -/
theorem trim_of_endsBlank_eq_false (h : endsBlank t = false) : t.trim = t.trimLeft := by
  rw [trim, trimRight_of_endsBlank_eq_false (endsBlank_trimLeft h)]

end Text

end PairGrammar
