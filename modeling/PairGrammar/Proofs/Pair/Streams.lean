import Mathlib.Data.List.Basic
import PairGrammar.Pair.Format
import PairGrammar.Proofs.Text.Unquoting
import PairGrammar.Text.Lines

/-!
# Streams of written pairs

Pairs are written one after the other, each with a line feed behind it. As plain text each pair takes
three lines, as long as its own texts are lines; as JSON it takes one line, whatever its texts are.
Either way the stream determines the pairs.

* `stream_plain`, `lines_stream`: a plain stream line by line.
* `selfDelimiting_json`: a pair is read back from its object, whatever follows it.
* `stream_plain_injective`, `stream_json_injective`: streams of different pairs differ.
-/

namespace PairGrammar

namespace Pair

/-- What is written for pairs. -/
def stream (f : PairFormat) (ps : List Pair) : Text := ps.flatMap fun p => p.format f ++ ['\n']

/-! ### Plain text -/

/-- The lines that are written for a pair. -/
def lines (p : Pair) : List Text := [p.natural, p.code, []]

/-- The texts of the pair are lines. -/
def IsLines (p : Pair) : Prop := '\n' ∉ p.natural ∧ '\n' ∉ p.code

theorem stream_plain (ps : List Pair) : stream .plain ps = Text.ofLines (ps.flatMap lines) := by
  have hpair : ∀ p : Pair, p.plain ++ ['\n'] = Text.ofLines p.lines := by
    intro p
    simp [plain, lines, Text.ofLines]
  unfold stream Text.ofLines
  rw [List.flatMap_assoc]
  exact List.flatMap_congr fun p _ => hpair p

theorem lines_stream {ps : List Pair} (h : ∀ p ∈ ps, p.IsLines) :
    Text.lines (stream .plain ps) = ps.flatMap lines := by
  rw [stream_plain]
  apply Text.lines_ofLines
  intro l hl
  obtain ⟨p, hp, hlp⟩ := List.mem_flatMap.1 hl
  obtain ⟨hnatural, hcode⟩ := h p hp
  rcases List.mem_cons.1 hlp with rfl | hlp
  · exact hnatural
  · rcases List.mem_pair.1 hlp with rfl | rfl
    · exact hcode
    · exact List.not_mem_nil

theorem selfDelimiting_lines : SelfDelimiting lines := by
  intro p q x y h
  obtain ⟨natural, code⟩ := p
  obtain ⟨natural', code'⟩ := q
  cases h
  exact ⟨rfl, rfl⟩

theorem stream_plain_injective {ps qs : List Pair} (hps : ∀ p ∈ ps, p.IsLines)
    (hqs : ∀ q ∈ qs, q.IsLines) (h : stream .plain ps = stream .plain qs) : ps = qs := by
  have hlines : ps.flatMap lines = qs.flatMap lines := by
    rw [← lines_stream hps, ← lines_stream hqs, h]
  exact selfDelimiting_lines.flatMap_injective (fun _ => List.cons_ne_nil _ _) hlines

/-! ### Objects of JSON -/

/-- What stands before the first text of an object. -/
def jsonStart : Text := '\x7b' :: Text.quoted "natural".toList ++ [':', ' ']

/-- What stands between the two texts of an object. -/
def jsonMiddle : Text := [',', ' '] ++ Text.quoted "code".toList ++ [':', ' ']

theorem json_append (p : Pair) (x : Text) :
    p.json ++ x = jsonStart ++
      (Text.quoted p.natural ++ (jsonMiddle ++ (Text.quoted p.code ++ '\x7d' :: x))) := by
  simp [json, jsonStart, jsonMiddle]

theorem selfDelimiting_json : SelfDelimiting json := by
  intro p q x y h
  rw [json_append, json_append] at h
  obtain ⟨hnatural, hrest⟩ := Text.selfDelimiting_quoted _ _ _ _ (List.append_cancel_left h)
  obtain ⟨hcode, hend⟩ := Text.selfDelimiting_quoted _ _ _ _ (List.append_cancel_left hrest)
  obtain ⟨natural, code⟩ := p
  obtain ⟨natural', code'⟩ := q
  cases hnatural
  cases hcode
  exact ⟨rfl, (List.cons.inj hend).2⟩

theorem json_ne_nil (p : Pair) : p.json ≠ [] := List.cons_ne_nil _ _

/-- An object stays self-delimiting with a line feed behind it. -/
theorem selfDelimiting_json_line : SelfDelimiting fun p : Pair => p.json ++ ['\n'] := by
  intro p q x y h
  rw [List.append_assoc, List.append_assoc] at h
  obtain ⟨rfl, hrest⟩ := selfDelimiting_json p q _ _ h
  exact ⟨rfl, (List.cons.inj hrest).2⟩

theorem stream_json_injective {ps qs : List Pair} (h : stream .json ps = stream .json qs) :
    ps = qs :=
  selfDelimiting_json_line.flatMap_injective
    (fun p => List.append_ne_nil_of_left_ne_nil p.json_ne_nil _) h

end Pair

end PairGrammar
