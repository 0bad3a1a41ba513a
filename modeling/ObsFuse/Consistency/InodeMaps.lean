import ObsFuse.Fs.InodeNames
import ObsFuse.Fs.Mount
import ObsFuse.Lib.Runs

/-! # The two inode maps

`path_to_inode` and `inode_to_entry` are updated one after the other by each operation of the
inode manager. Here is which operations leave them inverse to each other. -/

namespace ObsFuse
open Lib

/-- The operations of the inode manager that change its maps. -/
inductive InodeOp where
  | getOrCreateInode (now : Now) (path : Str) (isDir : Bool) (size : ℕ)
  | remove (inode : ℕ)
  | removeByPath (path : Str)
  | rename (now : Now) (oldPath newPath : Str)
  | updateAttr (now : Now) (inode : ℕ) (f : FileAttr → FileAttr)
  | updateSize (now : Now) (inode size : ℕ)
  | updateMtime (now : Now) (inode : ℕ) (mtime : SystemTime)
  | setChildren (now : Now) (inode : ℕ) (children : List ℕ)
  | invalidate (now : Now) (inode : ℕ)

namespace InodeManager
variable {m m' : InodeManager}

def step (m : InodeManager) : InodeOp → InodeManager
  | .getOrCreateInode now path isDir size => (m.getOrCreateInode now path isDir size).2
  | .remove inode => m.remove inode
  | .removeByPath path => m.removeByPath path
  | .rename now oldPath newPath => m.rename now oldPath newPath
  | .updateAttr now inode f => m.updateAttr now inode f
  | .updateSize now inode size => m.updateSize now inode size
  | .updateMtime now inode mtime => m.updateMtime now inode mtime
  | .setChildren now inode children => m.setChildren now inode children
  | .invalidate now inode => m.invalidate now inode

/-- A path is mapped to an inode exactly when the inode has an entry with that path. -/
def Inverse (m : InodeManager) : Prop :=
  ∀ path inode, AList.lookup path m.pathToInode = some inode ↔ m.getPath inode = some path

/-- What the maps need of an operation: a path that is not mapped yet gets a number without an
entry, and a path that is mapped is not renamed onto another mapped one. -/
def KeepsInverse (m : InodeManager) : InodeOp → Prop
  | .getOrCreateInode _ path _ _ =>
    (m.getInode path).isSome ∨ m.getEntry m.nextInode = none
  | .rename _ oldPath newPath =>
    m.getInode oldPath = none ∨ normalizePath oldPath = normalizePath newPath ∨
      m.getInode newPath = none
  | _ => True

instance decidableKeepsInverse (m : InodeManager) : (op : InodeOp) → Decidable (m.KeepsInverse op)
  | .getOrCreateInode .. => inferInstanceAs (Decidable (_ ∨ _))
  | .rename .. => inferInstanceAs (Decidable (_ ∨ _ ∨ _))
  | .remove _ | .removeByPath _ | .updateAttr .. | .updateSize .. | .updateMtime ..
  | .setChildren .. | .invalidate .. => isTrue trivial

theorem Inverse.congr (h : m.Inverse) (hpath : ∀ i, m'.getPath i = m.getPath i)
    (hmap : m'.pathToInode = m.pathToInode) : m'.Inverse := by
  intro path inode
  rw [hmap, hpath]
  exact h path inode

theorem new_inverse (now : Now) (config : PermissionConfig) : (new now config).Inverse := by
  intro path inode
  unfold new getPath
  simp only [Table.lookup_insert_if, AList.lookup_empty]
  constructor
  · intro h
    split at h
    · next hpath =>
      cases h
      rw [if_pos rfl, hpath]
      rfl
    · cases h
  · intro h
    split at h
    · next hinode =>
      cases h
      rw [if_pos rfl, hinode]
    · cases h

/-- A new number keeps the maps inverse exactly when nothing has it. -/
theorem Inverse.getOrCreateInode_iff (h : m.Inverse) (now : Now) (path : Str) (isDir : Bool)
    (size : ℕ) : (m.getOrCreateInode now path isDir size).2.Inverse ↔
      (m.getInode path).isSome ∨ m.getEntry m.nextInode = none := by
  rw [← getPath_eq_none_iff]
  unfold getInode
  cases hp : AList.lookup (normalizePath path) m.pathToInode with
  | some inode =>
    rw [getOrCreateInode_mapped hp]
    exact iff_of_true h (.inl rfl)
  | none =>
    unfold Inverse
    simp only [lookup_getOrCreateInode hp, getPath_getOrCreateInode hp]
    constructor
    · intro hinv
      right
      rw [Option.eq_none_iff_forall_ne_some]
      intro q hq
      have hback : AList.lookup q m.pathToInode = some m.nextInode := (h q m.nextInode).mpr hq
      have hne : q ≠ normalizePath path := by
        intro heq
        rw [heq, hp] at hback
        cases hback
      -- the number would still be that of the path of its former entry
      have hstale := (hinv q m.nextInode).mp (by rw [if_neg hne, hback])
      rw [if_pos rfl] at hstale
      exact hne (Option.some.inj hstale).symm
    · intro hor
      have hunused : m.getPath m.nextInode = none := hor.resolve_left Bool.false_ne_true
      intro q i
      by_cases hq : q = normalizePath path
      · by_cases hi : i = m.nextInode
        · rw [if_pos hq, if_pos hi, hq, hi]
          exact iff_of_true rfl rfl
        · rw [if_pos hq, if_neg hi, ← h q i, hq, hp]
          constructor
          · intro heq
            exact absurd (Option.some.inj heq).symm hi
          · intro heq
            cases heq
      · by_cases hi : i = m.nextInode
        · rw [if_neg hq, if_pos hi, h q i, hi, hunused]
          constructor
          · intro heq
            cases heq
          · intro heq
            exact absurd (Option.some.inj heq).symm hq
        · rw [if_neg hq, if_neg hi]
          exact h q i

theorem Inverse.remove (h : m.Inverse) (i : ℕ) : (m.remove i).Inverse := by
  intro q j
  rw [lookup_remove, getPath_remove]
  by_cases hj : j = i
  · rw [if_pos hj]
    by_cases hq : m.getPath i = some q
    · rw [if_pos hq]
      exact iff_of_false (by simp) (by simp)
    · rw [if_neg hq, h q j, hj]
      exact iff_of_false hq (by simp)
  · rw [if_neg hj]
    by_cases hq : m.getPath i = some q
    · have hback := (h q i).mpr hq
      rw [if_pos hq, ← h q j, hback]
      constructor
      · intro heq
        cases heq
      · intro heq
        exact absurd (Option.some.inj heq).symm hj
    · rw [if_neg hq]
      exact h q j

theorem Inverse.removeByPath (h : m.Inverse) (path : Str) : (m.removeByPath path).Inverse := by
  cases hp : AList.lookup (normalizePath path) m.pathToInode with
  | none =>
    unfold InodeManager.removeByPath
    rw [hp]
    exact h
  | some inode =>
    -- what is removed by its path is what is removed by its number
    have hpath := (h _ _).mp hp
    refine (h.remove inode).congr ?_ ?_
    · intro i
      rw [getPath_removeByPath hp, getPath_remove]
    · unfold getPath at hpath
      obtain ⟨entry, hentry, hname⟩ := Option.map_eq_some_iff.mp hpath
      unfold InodeManager.removeByPath InodeManager.remove
      rw [hp, hentry]
      dsimp only
      rw [hname]

/-- The entry of a mapped target still has the path that leads elsewhere after the rename. -/
theorem Inverse.target_unmapped (h : m.Inverse) {now : Now} {oldPath newPath : Str} {inode : ℕ}
    (hold : AList.lookup (normalizePath oldPath) m.pathToInode = some inode)
    (hne : normalizePath oldPath ≠ normalizePath newPath)
    (hinv : (m.rename now oldPath newPath).Inverse) : m.getInode newPath = none := by
  have hinode : m.getPath inode = some (normalizePath oldPath) := (h _ _).mp hold
  unfold Inverse at hinv
  simp only [lookup_rename hold, getPath_rename hold, hinode, Option.map_some] at hinv
  rw [Option.eq_none_iff_forall_ne_some]
  intro j hj
  unfold getInode at hj
  have hother : j ≠ inode := by
    intro heq
    rw [heq, h, hinode] at hj
    exact hne (Option.some.inj hj)
  have hstale := (hinv (normalizePath newPath) j).mpr (by rw [if_neg hother, ← h, hj])
  rw [if_pos rfl] at hstale
  exact hother (Option.some.inj hstale).symm

theorem Inverse.renamed (h : m.Inverse) (now : Now) {oldPath newPath : Str} {inode : ℕ}
    (hold : AList.lookup (normalizePath oldPath) m.pathToInode = some inode)
    (htarget : ∀ i, m.getPath i = some (normalizePath newPath) → i = inode) :
    (m.rename now oldPath newPath).Inverse := by
  have hinode : m.getPath inode = some (normalizePath oldPath) := (h _ _).mp hold
  unfold Inverse
  simp only [lookup_rename hold, getPath_rename hold, hinode, Option.map_some]
  intro q j
  by_cases hj : j = inode
  · rw [if_pos hj, hj]
    by_cases hq : q = normalizePath newPath
    · rw [if_pos hq, hq]
      exact iff_of_true rfl rfl
    · rw [if_neg hq]
      refine iff_of_false ?_ (fun heq => hq (Option.some.inj heq).symm)
      intro hmap
      split at hmap
      · cases hmap
      · next hqo =>
        rw [h, hinode] at hmap
        exact hqo (Option.some.inj hmap).symm
  · rw [if_neg hj]
    by_cases hq : q = normalizePath newPath
    · rw [if_pos hq, hq]
      refine iff_of_false (fun heq => hj (Option.some.inj heq).symm) ?_
      intro hpath
      exact hj (htarget j hpath)
    · rw [if_neg hq]
      by_cases hqo : q = normalizePath oldPath
      · rw [if_pos hqo, ← h, hqo, hold]
        refine iff_of_false (by simp) ?_
        intro heq
        exact hj (Option.some.inj heq).symm
      · rw [if_neg hqo]
        exact h q j

/-- A rename of a mapped path keeps the maps inverse exactly when its target is not another
mapped one, whose entry stays behind. -/
theorem Inverse.rename_iff (h : m.Inverse) (now : Now) (oldPath newPath : Str) :
    (m.rename now oldPath newPath).Inverse ↔
      m.getInode oldPath = none ∨ normalizePath oldPath = normalizePath newPath ∨
        m.getInode newPath = none := by
  unfold getInode
  cases hold : AList.lookup (normalizePath oldPath) m.pathToInode with
  | none =>
    rw [rename_unmapped hold]
    exact iff_of_true h (.inl rfl)
  | some inode =>
    constructor
    · intro hinv
      right
      by_cases hsame : normalizePath oldPath = normalizePath newPath
      · exact .inl hsame
      · exact .inr (h.target_unmapped hold hsame hinv)
    · intro hor
      apply h.renamed now hold
      intro i hi
      rw [← h] at hi
      rcases hor with hno | hsame | hfree
      · cases hno
      · rw [← hsame, hold] at hi
        exact (Option.some.inj hi).symm
      · rw [hfree] at hi
        cases hi

theorem getPath_invalidate (m : InodeManager) (now : Now) (i j : ℕ) :
    (m.invalidate now i).getPath j = m.getPath j := by
  simp only [invalidate, getPath]
  rw [Table.lookup_modify]
  split
  · next h =>
    rw [Option.map_map, h]
    rfl
  · rfl

theorem Inverse.step_iff (h : m.Inverse) (op : InodeOp) :
    (m.step op).Inverse ↔ m.KeepsInverse op := by
  cases op with
  | getOrCreateInode now path isDir size => exact h.getOrCreateInode_iff now path isDir size
  | remove inode => exact iff_of_true (h.remove inode) trivial
  | removeByPath path => exact iff_of_true (h.removeByPath path) trivial
  | rename now oldPath newPath => exact h.rename_iff now oldPath newPath
  | updateAttr now inode f =>
    exact iff_of_true (h.congr (fun j => m.getPath_updateAttr now inode j f) rfl) trivial
  | updateSize now inode size =>
    exact iff_of_true (h.congr (fun j => m.getPath_updateSize now inode j size) rfl) trivial
  | updateMtime now inode mtime =>
    exact iff_of_true (h.congr (fun j => m.getPath_updateAttr now inode j _) rfl) trivial
  | setChildren now inode children =>
    exact iff_of_true (h.congr (fun j => m.getPath_setChildren now inode j children) rfl) trivial
  | invalidate now inode =>
    exact iff_of_true (h.congr (m.getPath_invalidate now inode) rfl) trivial

end InodeManager

/-- The two maps are inverse in every state of a run exactly when no step gives a number that
has an entry to a new path and none renames a mapped path onto another mapped one. -/
theorem inode_maps_inverse_iff (now : Now) (config : PermissionConfig) (ops : List InodeOp) :
    (∀ n, (run InodeManager.step (.new now config) (ops.take n)).Inverse) ↔
      Along InodeManager.step InodeManager.KeepsInverse (.new now config) ops :=
  @forall_states_iff_along _ _ InodeManager.step InodeManager.KeepsInverse (fun _ => True)
    InodeManager.Inverse (fun _ _ _ => trivial) (fun _ op _ h => h.step_iff op) _ ops trivial
    (InodeManager.new_inverse now config)

/-- Two files, the first renamed onto the second: the entry of the second keeps its path, and
removing it later takes the name from the first. -/
theorem rename_onto_mapped_path :
    let m := run InodeManager.step (.new ⟨0, 0⟩ (.default 0 0))
      [.getOrCreateInode ⟨0, 0⟩ ['a'] false 0, .getOrCreateInode ⟨0, 0⟩ ['b'] false 0,
        .rename ⟨0, 0⟩ ['a'] ['b']]
    m.getInode ['b'] = some 2 ∧ m.getPath 2 = some ['b'] ∧ m.getPath 3 = some ['b'] ∧ ¬m.Inverse ∧
      (m.remove 3).getInode ['b'] = none ∧ (m.remove 3).getPath 2 = some ['b'] := by
  refine ⟨by decide, by decide, by decide, ?_, by decide, by decide⟩
  intro h
  have hback := (h ['b'] 3).mpr (by decide)
  exact absurd hback (by decide)

end ObsFuse
