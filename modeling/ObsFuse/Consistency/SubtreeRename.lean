import ObsFuse.Consistency.InodeMaps

/-! # Renaming a directory

A rename gives one inode a new path, and no path is stored relative to another. What is known
below the directory keeps the old one. -/

namespace ObsFuse
open Lib

/-- The path is the directory itself, or one of a file or directory in it at any depth. -/
def AtOrBelow (dir path : Str) : Prop := path = dir ∨ dir ++ ['/'] <+: path

instance (dir path : Str) : Decidable (AtOrBelow dir path) :=
  inferInstanceAs (Decidable (_ ∨ _))

theorem atOrBelow_self (dir : Str) : AtOrBelow dir dir := .inl rfl

theorem AtOrBelow.eq_append {dir path : Str} (h : AtOrBelow dir path) :
    ∃ rest, path = dir ++ rest := by
  rcases h with rfl | ⟨rest, rfl⟩
  · exact ⟨[], (List.append_nil _).symm⟩
  · exact ⟨'/' :: rest, by rw [List.append_assoc]; rfl⟩

namespace InodeManager

/-- Whatever had a path at or below `old` has the same one at or below `new` and is found under
it, nothing at or below `old` is mapped, and all other inodes keep their paths. -/
structure MovesSubtree (m m' : InodeManager) (old new : Str) : Prop where
  moved : ∀ i rest, m.getPath i = some (old ++ rest) → AtOrBelow old (old ++ rest) →
    m'.getPath i = some (new ++ rest) ∧ m'.getInode (new ++ rest) = some i
  unmapped : ∀ path, AtOrBelow old path → AList.lookup path m'.pathToInode = none
  kept : ∀ i, (∀ path, m.getPath i = some path → ¬AtOrBelow old path) → m'.getPath i = m.getPath i

/-- No other inode has a path at or below `old`, and no path below it is mapped. -/
def NothingBelow (m : InodeManager) (inode : ℕ) (old : Str) : Prop :=
  (∀ i path, m.getPath i = some path → AtOrBelow old path → i = inode) ∧
    ∀ path, old ++ ['/'] <+: path → AList.lookup path m.pathToInode = none

theorem forall_getPath {m : InodeManager} {P : ℕ → Str → Prop}
    (h : ∀ e ∈ m.inodeToEntry.entries, P e.1 e.2.path) (i : ℕ) (path : Str)
    (hi : m.getPath i = some path) : P i path := by
  obtain ⟨entry, hentry, rfl⟩ := Option.map_eq_some_iff.mp hi
  exact h _ (Table.mem_entries_of_lookup _ hentry)

end InodeManager

/-- A rename of a live path, to one that is not below it and has no live entry at or below it,
moves the subtree exactly when the inode itself is all that is known of it. -/
theorem rename_moves_subtree_iff (m : InodeManager) (now : Now) {oldPath newPath : Str} {inode : ℕ}
    (hlive : m.Live inode (normalizePath oldPath))
    (hbelow : ¬normalizePath oldPath ++ ['/'] <+: normalizePath newPath)
    (hfree : ∀ i path, m.Live i path → ¬AtOrBelow (normalizePath newPath) path) :
    (m.MovesSubtree (m.rename now oldPath newPath) (normalizePath oldPath)
        (normalizePath newPath)) ↔
      m.NothingBelow inode (normalizePath oldPath) := by
  have hold : AList.lookup (normalizePath oldPath) m.pathToInode = some inode := by
    have hinode := hlive.getInode
    rwa [InodeManager.getInode, normalizePath_normalizePath] at hinode
  have hne : normalizePath newPath ≠ normalizePath oldPath := by
    intro heq
    refine hfree inode _ hlive ?_
    rw [heq]
    exact atOrBelow_self _
  have hget := InodeManager.getPath_rename hold now newPath
  have hlookup := InodeManager.lookup_rename hold now newPath
  rw [hlive.getPath, Option.map_some] at hget
  refine ⟨?_, ?_⟩
  · intro h
    refine ⟨?_, ?_⟩
    · intro i path hi hunder
      obtain ⟨rest, rfl⟩ := hunder.eq_append
      by_contra hother
      -- another inode would keep its path
      have hmoved := (h.moved i rest hi hunder).1
      rw [hget, if_neg hother, hi] at hmoved
      exact hne (List.append_cancel_right (Option.some.inj hmoved)).symm
    · intro path hpath
      have hnone := h.unmapped path (.inr hpath)
      rw [hlookup] at hnone
      split at hnone
      · cases hnone
      · split at hnone
        · next heq =>
          have hlen := hpath.length_le
          rw [heq, List.length_append, List.length_singleton] at hlen
          omega
        · exact hnone
  · rintro ⟨honly, hempty⟩
    constructor
    · intro i rest hi hunder
      have heq := honly i _ hi hunder
      rw [heq, hlive.getPath] at hi
      have hrest : rest = [] := by
        have hself := Option.some.inj hi
        rwa [List.self_eq_append_right] at hself
      rw [hrest, List.append_nil, heq, hget, if_pos rfl]
      refine ⟨rfl, ?_⟩
      rw [InodeManager.getInode, normalizePath_normalizePath, hlookup, if_pos rfl]
    · intro path hunder
      rw [hlookup]
      rcases hunder with rfl | hpath
      · rw [if_neg hne.symm, if_pos rfl]
      · rw [if_neg]
        · split
          · rfl
          · exact hempty path hpath
        · rintro rfl
          exact hbelow hpath
    · intro i hother
      rw [hget, if_neg]
      rintro rfl
      exact hother _ hlive.getPath (atOrBelow_self _)

/-- An empty directory is renamed next to a file whose name begins with its own. -/
theorem empty_directory_moves :
    let m := run InodeManager.step (.new ⟨0, 0⟩ (.default 0 0))
      [.getOrCreateInode ⟨0, 0⟩ ['d'] true 0, .getOrCreateInode ⟨0, 0⟩ ['d', 'x'] false 0]
    m.MovesSubtree (m.rename ⟨1, 1⟩ ['d'] ['e']) ['d'] ['e'] := by
  refine (@rename_moves_subtree_iff _ ⟨1, 1⟩ ['d'] ['e'] 2 ⟨by decide, by decide⟩ (by decide)
    ?_).mpr ⟨?_, ?_⟩
  · intro i path hlive
    exact @InodeManager.forall_getPath _ (fun _ p => ¬AtOrBelow ['e'] p) (by decide) i path
      hlive.getPath
  · exact @InodeManager.forall_getPath _ (fun i p => AtOrBelow ['d'] p → i = 2) (by decide)
  · intro path hpath
    rw [AList.lookup_eq_none]
    intro hmem
    have hkeys : path ∈ ([['d', 'x'], ['d'], []] : List Str) := hmem
    exact absurd hpath ((by decide :
      ∀ p ∈ ([['d', 'x'], ['d'], []] : List Str), ¬['d', '/'] <+: p) path hkeys)

/-- A directory with a file in it is renamed: the file keeps its path, is not found under the
new one, and the old one still leads to it. -/
theorem renamed_directory_leaves_file :
    let m := run InodeManager.step (.new ⟨0, 0⟩ (.default 0 0))
      [.getOrCreateInode ⟨0, 0⟩ ['d'] true 0, .getOrCreateInode ⟨0, 0⟩ ['d', '/', 'x'] false 0]
    let m' := m.rename ⟨1, 1⟩ ['d'] ['e']
    m'.getPath 2 = some ['e'] ∧ m'.getPath 3 = some ['d', '/', 'x'] ∧
      m'.getInode ['e', '/', 'x'] = none ∧ m'.getInode ['d', '/', 'x'] = some 3 ∧
      ¬m.MovesSubtree m' ['d'] ['e'] := by
  refine ⟨by decide, by decide, by decide, by decide, ?_⟩
  intro h
  have hnone := h.unmapped ['d', '/', 'x'] (by decide)
  exact absurd hnone (by decide)

end ObsFuse
