import Mathlib.Data.List.Basic
import PairGrammar.Files.Tree

/-!
# Writing files

A file that has been written is read back as it was written, and what was written to it before
leaves no trace.

* `lookup_put`: what a tree holds after something has been put into it.
* `filePlace_eq_ok_iff`: the paths at which a file can be written.
* `bytes_of_write`: reading a file that has been written.
* `write_of_write`: writing the same file once more.
-/

namespace PairGrammar

namespace FileTree

variable {t t' : FileTree} {path : String} {names place : List String} {a b : ByteArray}

/-! ### Putting something into a tree -/

section

variable {nodes : List (List String × FileNode)}

theorem lookup_replace_self (h : nodes.any (·.1 = names)) (n : FileNode) :
    (nodes.map fun m => if m.1 = names then (names, n) else m).lookup names = some n := by
  induction nodes with
  | nil => cases h
  | cons m nodes ih =>
    rw [List.map_cons]
    by_cases hm : m.1 = names
    · rw [if_pos hm, List.lookup_cons_self]
    · have h' : nodes.any (·.1 = names) := by simpa [hm] using h
      rw [if_neg hm, List.lookup_cons, beq_false_of_ne (Ne.symm hm), ih h']

theorem lookup_replace_of_ne (h : place ≠ names) (n : FileNode) :
    (nodes.map fun m => if m.1 = names then (names, n) else m).lookup place =
      nodes.lookup place := by
  rw [List.lookup_eq_findSome?, List.lookup_eq_findSome?, List.findSome?_map]
  congr 1
  funext m
  by_cases hm : m.1 = names
  · simp [hm, h]
  · simp [hm]

theorem ne_of_not_any (h : ¬ nodes.any (·.1 = names)) : ∀ m ∈ nodes, m.1 ≠ names :=
  fun m hm hname => h (List.any_eq_true.2 ⟨m, hm, decide_eq_true hname⟩)

end

/-- What is put into a tree is found at its place, and everything else is as it was. -/
theorem lookup_put (t : FileTree) (names : List String) (n : FileNode) (place : List String) :
    (t.put names n).nodes.lookup place =
      if place = names then some n else t.nodes.lookup place := by
  rw [put]
  split
  · next hany =>
    by_cases hplace : place = names
    · rw [if_pos hplace, hplace, lookup_replace_self hany]
    · rw [if_neg hplace, lookup_replace_of_ne hplace]
  · next hany =>
    have hnone : t.nodes.lookup names = none :=
      List.lookup_eq_none_iff.2 fun m hm => bne_iff_ne.2 (ne_of_not_any hany m hm).symm
    rw [List.lookup_append]
    by_cases hplace : place = names
    · rw [if_pos hplace, hplace, hnone, List.lookup_cons_self, Option.none_or]
    · rw [if_neg hplace, List.lookup_cons, beq_false_of_ne hplace, List.lookup_nil, Option.or_none]

theorem put_put (t : FileTree) (names : List String) (m n : FileNode) :
    (t.put names m).put names n = t.put names n := by
  have hreplace (k : List String × FileNode) :
      (if (if k.1 = names then (names, m) else k).1 = names then (names, n)
        else if k.1 = names then (names, m) else k) = if k.1 = names then (names, n) else k := by
    by_cases hk : k.1 = names
    · rw [if_pos hk, if_pos rfl, if_pos hk]
    · rw [if_neg hk, if_neg hk]
  by_cases hany : t.nodes.any (·.1 = names)
  · have hagain : (t.nodes.map fun k => if k.1 = names then (names, m) else k).any
        (·.1 = names) := by
      obtain ⟨k, hk, hname⟩ := List.any_eq_true.1 hany
      refine List.any_eq_true.2 ⟨_, List.mem_map_of_mem hk, ?_⟩
      rw [if_pos (of_decide_eq_true hname)]
      exact decide_eq_true rfl
    rw [put, put, put, if_pos hany, if_pos hany, if_pos hagain, List.map_map]
    exact congrArg _ (List.map_congr_left fun k _ => hreplace k)
  · have hagain : (t.nodes ++ [(names, m)]).any (·.1 = names) := by simp
    have hothers : (t.nodes.map fun k => if k.1 = names then (names, n) else k) = t.nodes :=
      (List.map_congr_left fun k hk => if_neg (ne_of_not_any hany k hk)).trans (List.map_id' _)
    rw [put, put, put, if_neg hany, if_neg hany, if_pos hagain, List.map_append, hothers,
      List.map_singleton, if_pos rfl]

/-- A file that is put where no folder is changes nothing else. -/
theorem node?_put (h : t.node? names ≠ some .folder) (n : FileNode) (place : List String) :
    (t.put names n).node? place = if place = names then some n else t.node? place := by
  unfold node? at h ⊢
  by_cases habove : isAbove place ∨ place = ["/"]
  · have hne : place ≠ names := by
      rintro rfl
      exact h (if_pos habove)
    rw [if_pos habove, if_neg hne, if_pos habove]
  · rw [if_neg habove, if_neg habove, lookup_put]

/-! ### Following paths -/

theorem bind_eq_ok {α β : Type} {x : Except PathTrouble α} {f : α → Except PathTrouble β} {c : β} :
    x >>= f = .ok c ↔ ∃ a, x = .ok a ∧ f a = .ok c := by
  cases x with
  | error e =>
    refine iff_of_false (fun h => ?_) fun ⟨_, h, _⟩ => ?_
    · cases h
    · cases h
  | ok a => exact ⟨fun h => ⟨a, rfl, h⟩, fun ⟨_, h, hf⟩ => by cases h; exact hf⟩

theorem folder_of_enter {n : String} (h : t.enter place n = .ok names) :
    t.node? place = some .folder := by
  unfold enter at h
  split at h
  · cases h
  · cases h
  · assumption

theorem enter_dot (h : t.node? place = some .folder) : t.enter place "." = .ok place := by
  rw [enter, h]
  rfl

/-- Two trees that hold the same folders. -/
def SameFolders (t t' : FileTree) : Prop :=
  ∀ place, t'.node? place = some .folder ↔ t.node? place = some .folder

theorem sameFolders_put (h : t.node? names ≠ some .folder) (b : ByteArray) :
    SameFolders t (t.put names (.file b)) := by
  intro place
  rw [node?_put h]
  split
  · next hplace =>
    subst hplace
    exact iff_of_false (fun hfile => by cases hfile) h
  · exact Iff.rfl

theorem SameFolders.enter (h : SameFolders t t') {n : String} (hn : t.enter place n = .ok names) :
    t'.enter place n = .ok names := by
  have hfolder := folder_of_enter hn
  rw [← hn, FileTree.enter, FileTree.enter, hfolder, (h place).2 hfolder]

theorem SameFolders.foldlM_enter (h : SameFolders t t') {ns : List String}
    (hns : ns.foldlM t.enter place = .ok names) : ns.foldlM t'.enter place = .ok names := by
  induction ns generalizing place with
  | nil => exact hns
  | cons n ns ih =>
    rw [List.foldlM_cons, bind_eq_ok] at hns ⊢
    obtain ⟨next, hn, hns⟩ := hns
    exact ⟨next, h.enter hn, ih hns⟩

/-- A file can be written at a path whose last name is no dots and has no slash behind it, in a
folder that the other names lead to, where there is no folder. -/
theorem filePlace_eq_ok_iff :
    t.filePlace path = .ok place ↔ ∃ n parent, PathTrouble.ofText? path = none ∧
      (Path.written path).getLast? = some n ∧ ¬ (n = "." ∨ n = ".." ∨ path.endsWith "/") ∧
      (Path.written path).dropLast.foldlM t.enter (start path) = .ok parent ∧
      t.enter parent n = .ok place ∧ t.node? place ≠ some .folder := by
  unfold filePlace
  constructor
  · intro h
    split at h
    · cases h
    · cases h
    · next n htext hlast =>
      obtain ⟨parent, hparent, h⟩ := bind_eq_ok.1 h
      obtain ⟨found, henter, h⟩ := bind_eq_ok.1 h
      split at h
      · cases h
      · next hnode =>
        cases h
        have hasks : ¬ (n = "." ∨ n = ".." ∨ path.endsWith "/") := by
          intro hasks
          rw [if_pos hasks] at henter
          have hfolder := folder_of_enter henter
          rw [enter_dot hfolder] at henter
          cases henter
          exact hnode hfolder
        rw [if_neg hasks] at henter
        exact ⟨n, parent, htext, hlast, hasks, hparent, henter, hnode⟩
  · rintro ⟨n, parent, htext, hlast, hasks, hparent, henter, hnode⟩
    rw [htext, hlast]
    refine bind_eq_ok.2 ⟨parent, hparent, bind_eq_ok.2 ⟨place, ?_, ?_⟩⟩
    · rw [if_neg hasks]
      exact henter
    · split
      · next hfolder => exact absurd hfolder hnode
      · rfl

theorem SameFolders.filePlace (h : SameFolders t t') (hplace : t.filePlace path = .ok place) :
    t'.filePlace path = .ok place := by
  obtain ⟨n, parent, htext, hlast, hasks, hparent, henter, hnode⟩ := filePlace_eq_ok_iff.1 hplace
  exact filePlace_eq_ok_iff.2 ⟨n, parent, htext, hlast, hasks, h.foldlM_enter hparent,
    h.enter henter, fun hfolder => hnode ((h place).1 hfolder)⟩

theorem node_of_filePlace (h : t.filePlace path = .ok place) : t.node? place ≠ some .folder := by
  obtain ⟨_, _, _, _, _, _, _, hnode⟩ := filePlace_eq_ok_iff.1 h
  exact hnode

theorem place_of_filePlace (h : t.filePlace path = .ok place) : t.place path = .ok place := by
  obtain ⟨n, parent, htext, hlast, hasks, hparent, henter, -⟩ := filePlace_eq_ok_iff.1 h
  have hslash : ¬ path.endsWith "/" := fun hends => hasks (.inr (.inr hends))
  have hsteps : Path.steps path = (Path.written path).dropLast ++ [n] := by
    rw [Path.steps, if_neg hslash, List.append_nil, List.dropLast_append_getLast? n hlast]
  rw [FileTree.place, htext]
  dsimp only
  rw [hsteps, List.foldlM_append, bind_eq_ok]
  exact ⟨parent, hparent, bind_eq_ok.2 ⟨place, henter, rfl⟩⟩

/-! ### Writing and reading -/

theorem write_eq_ok_iff :
    t.write path b = .ok t' ↔ ∃ place, t.filePlace path = .ok place ∧
      t' = t.put place (.file b) := by
  unfold write
  cases t.filePlace path with
  | error e =>
    refine iff_of_false (fun h => ?_) fun ⟨_, h, _⟩ => ?_
    · cases h
    · cases h
  | ok place =>
    refine ⟨fun h => ⟨place, rfl, ?_⟩, fun ⟨_, h, ht⟩ => ?_⟩
    · cases h
      rfl
    · cases h
      rw [ht]
      rfl

/-- Whether a file can be written does not depend on what is written. -/
theorem exists_write (h : t.write path a = .ok t') (b : ByteArray) :
    ∃ t', t.write path b = .ok t' := by
  obtain ⟨place, hplace, -⟩ := write_eq_ok_iff.1 h
  exact ⟨_, write_eq_ok_iff.2 ⟨place, hplace, rfl⟩⟩

/-- A file that has been written is read back. -/
theorem bytes_of_write (h : t.write path b = .ok t') : t'.bytes path = .ok b := by
  obtain ⟨place, hplace, rfl⟩ := write_eq_ok_iff.1 h
  have hnode := node_of_filePlace hplace
  have hplace' := place_of_filePlace ((sameFolders_put hnode b).filePlace hplace)
  rw [bytes, find, hplace']
  dsimp only
  rw [node?_put hnode, if_pos rfl]

/-- Only what was written last is left. -/
theorem write_of_write (h : t.write path a = .ok t') (b : ByteArray) :
    t'.write path b = t.write path b := by
  obtain ⟨place, hplace, rfl⟩ := write_eq_ok_iff.1 h
  have hnode := node_of_filePlace hplace
  rw [write, write, hplace, (sameFolders_put hnode a).filePlace hplace, Except.map, Except.map,
    put_put]

end FileTree

end PairGrammar
