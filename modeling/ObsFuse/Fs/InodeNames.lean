import ObsFuse.Fs.Inode

/-! # The names of inodes

What the operations of the inode manager do to its two maps. An inode is live under a name
when its entry carries the name and the name leads back to it. -/

namespace ObsFuse
open Lib

theorem trimEnd_trimEnd (s : Str) : trimEnd (trimEnd s) = trimEnd s :=
  List.rdropWhile_idempotent _ s

theorem trimStart_normalizePath (path : Str) :
    trimStart (normalizePath path) = normalizePath path := by
  unfold trimStart
  rw [List.dropWhile_eq_self_iff]
  intro hlen
  -- the first character is that of the path without its leading slashes
  have hpre : normalizePath path <+: trimStart path := List.rdropWhile_prefix _ _
  have hne : trimStart path ≠ [] := by
    intro hnil
    rw [hnil, List.prefix_nil] at hpre
    rw [hpre] at hlen
    cases hlen
  have hhead := List.head_dropWhile_not (fun c : Char => decide (c = '/')) hne
  obtain ⟨rest, hrest⟩ := hpre
  have hget : (normalizePath path)[0] = (trimStart path).head hne := by
    rw [List.head_eq_getElem]
    simp only [← hrest]
    rw [List.getElem_append_left hlen]
  rw [hget]
  have hslash : (trimStart path).head hne ≠ '/' := by simpa [trimStart] using hhead
  simpa using hslash

theorem normalizePath_normalizePath (path : Str) :
    normalizePath (normalizePath path) = normalizePath path := by
  show trimEnd (trimStart (normalizePath path)) = normalizePath path
  rw [trimStart_normalizePath]
  exact trimEnd_trimEnd _

theorem trimEnd_append_normal {q : Str} (hq : normalizePath q = q) (hne : q ≠ []) (a : Str) :
    trimEnd (a ++ '/' :: q) = a ++ '/' :: q := by
  unfold trimEnd
  rw [List.rdropWhile_eq_self_iff]
  intro hl
  have hlast : (a ++ '/' :: q).getLast hl = q.getLast hne := by
    rw [List.getLast_append_of_ne_nil _ (List.cons_ne_nil _ _), List.getLast_cons hne]
  have hself : List.rdropWhile (fun c : Char => decide (c = '/')) q = q := by
    rw [← hq]
    exact trimEnd_trimEnd _
  rw [hlast]
  exact List.rdropWhile_eq_self_iff.mp hself hne

namespace InodeManager
variable {m m' : InodeManager}

/-- The inode's entry carries the path, and the path leads to the inode. -/
structure Live (m : InodeManager) (inode : ℕ) (path : Str) : Prop where
  getPath : m.getPath inode = some path
  getInode : m.getInode path = some inode

/-- Each mapped path is that of its inode's entry, and the paths of entries are normalized. -/
structure Mapped (m : InodeManager) : Prop where
  forward : ∀ path inode, AList.lookup path m.pathToInode = some inode →
    m.getPath inode = some path
  normal : ∀ inode path, m.getPath inode = some path → normalizePath path = path

theorem Live.congr {inode : ℕ} {path : Str} (h : m.Live inode path)
    (hpath : m'.getPath inode = m.getPath inode) (hmap : m'.pathToInode = m.pathToInode) :
    m'.Live inode path :=
  ⟨hpath.trans h.getPath, (congrArg (AList.lookup (normalizePath path)) hmap).trans h.getInode⟩

theorem Mapped.congr (h : m.Mapped) (hpath : ∀ i, m'.getPath i = m.getPath i)
    (hmap : m'.pathToInode = m.pathToInode) : m'.Mapped := by
  constructor
  · intro path inode hi
    rw [hmap] at hi
    rw [hpath]
    exact h.forward path inode hi
  · intro inode path hp
    rw [hpath] at hp
    exact h.normal inode path hp

theorem new_mapped (now : Now) (config : PermissionConfig) : (new now config).Mapped := by
  constructor
  · intro path inode h
    have hroot : path = [] ∧ inode = rootInode := by
      simp only [new, Table.lookup_insert_if, AList.lookup_empty] at h
      split at h
      · next heq => exact ⟨heq, (Option.some.inj h).symm⟩
      · cases h
    rw [hroot.1, hroot.2]
    simp only [getPath, new]
    rw [AList.lookup_insert, Option.map_some]
  · intro inode path h
    have hroot : path = [] := by
      simp only [getPath, new, Table.lookup_insert_if, AList.lookup_empty] at h
      split at h
      · exact (Option.some.inj h).symm
      · cases h
    rw [hroot]
    rfl

theorem Mapped.getPath_of_getInode (h : m.Mapped) {path : Str} {inode : ℕ}
    (hi : m.getInode path = some inode) : m.getPath inode = some (normalizePath path) :=
  h.forward _ _ hi

theorem Mapped.live (h : m.Mapped) {path : Str} {inode : ℕ} (hi : m.getInode path = some inode) :
    m.Live inode (normalizePath path) := by
  refine ⟨h.getPath_of_getInode hi, ?_⟩
  rw [getInode, normalizePath_normalizePath]
  exact hi

theorem Live.unique {i j : ℕ} {path : Str} (hi : m.Live i path) (hj : m.Live j path) : i = j := by
  have heq := hi.getInode.symm.trans hj.getInode
  exact Option.some.inj heq

/-! ### The two maps after each operation -/

theorem getOrCreateInode_mapped {path : Str} {inode : ℕ}
    (h : AList.lookup (normalizePath path) m.pathToInode = some inode) (now : Now) (isDir : Bool)
    (size : ℕ) : m.getOrCreateInode now path isDir size = (inode, m) := by
  simp only [getOrCreateInode]
  rw [h]

theorem getPath_getOrCreateInode {path : Str}
    (h : AList.lookup (normalizePath path) m.pathToInode = none) (now : Now) (isDir : Bool)
    (size i : ℕ) : (m.getOrCreateInode now path isDir size).2.getPath i =
      if i = m.nextInode then some (normalizePath path) else m.getPath i := by
  simp only [getOrCreateInode]
  rw [h]
  simp only [getPath]
  rw [Table.lookup_insert_if]
  split
  · rfl
  · rfl

theorem lookup_getOrCreateInode {path : Str}
    (h : AList.lookup (normalizePath path) m.pathToInode = none) (now : Now) (isDir : Bool)
    (size : ℕ) (q : Str) :
    AList.lookup q (m.getOrCreateInode now path isDir size).2.pathToInode =
      if q = normalizePath path then some m.nextInode else AList.lookup q m.pathToInode := by
  simp only [getOrCreateInode]
  rw [h]
  exact Table.lookup_insert_if ..

theorem getInode_getOrCreateInode (m : InodeManager) (now : Now) (path : Str) (isDir : Bool)
    (size : ℕ) : (m.getOrCreateInode now path isDir size).2.getInode path =
      some (m.getOrCreateInode now path isDir size).1 := by
  cases h : AList.lookup (normalizePath path) m.pathToInode with
  | some inode =>
    rw [getOrCreateInode_mapped h]
    exact h
  | none =>
    unfold getInode
    rw [lookup_getOrCreateInode h, if_pos rfl]
    simp only [getOrCreateInode]
    rw [h]

theorem getInode_getOrCreateInode_of_some {p : Str} {i : ℕ} (hi : m.getInode p = some i)
    (now : Now) (path : Str) (isDir : Bool) (size : ℕ) :
    (m.getOrCreateInode now path isDir size).2.getInode p = some i := by
  cases h : AList.lookup (normalizePath path) m.pathToInode with
  | some inode =>
    rw [getOrCreateInode_mapped h]
    exact hi
  | none =>
    unfold getInode at hi ⊢
    rw [lookup_getOrCreateInode h, if_neg, hi]
    intro heq
    rw [heq, h] at hi
    cases hi

theorem getInode_getOrCreateInode_of_ne {p path : Str} (hne : normalizePath p ≠ normalizePath path)
    (m : InodeManager) (now : Now) (isDir : Bool) (size : ℕ) :
    (m.getOrCreateInode now path isDir size).2.getInode p = m.getInode p := by
  cases h : AList.lookup (normalizePath path) m.pathToInode with
  | some inode => rw [getOrCreateInode_mapped h]
  | none =>
    unfold getInode
    rw [lookup_getOrCreateInode h, if_neg hne]

theorem getPath_remove (m : InodeManager) (i j : ℕ) :
    (m.remove i).getPath j = if j = i then none else m.getPath j := by
  unfold InodeManager.remove getPath
  cases h : AList.lookup i m.inodeToEntry with
  | none =>
    dsimp only
    split
    · next hj =>
      rw [hj, h]
      rfl
    · rfl
  | some entry =>
    dsimp only
    rw [Table.lookup_erase_if]
    split
    · rfl
    · rfl

theorem lookup_remove (m : InodeManager) (i : ℕ) (q : Str) :
    AList.lookup q (m.remove i).pathToInode =
      if m.getPath i = some q then none else AList.lookup q m.pathToInode := by
  unfold InodeManager.remove getPath
  cases h : AList.lookup i m.inodeToEntry with
  | none => rfl
  | some entry =>
    dsimp only
    rw [Table.lookup_erase_if, Option.map_some]
    by_cases hq : q = entry.path
    · rw [if_pos hq, if_pos (congrArg some hq.symm)]
    · rw [if_neg hq, if_neg fun heq => hq (Option.some.inj heq).symm]

theorem getPath_removeByPath {path : Str} {inode : ℕ}
    (h : AList.lookup (normalizePath path) m.pathToInode = some inode) (j : ℕ) :
    (m.removeByPath path).getPath j = if j = inode then none else m.getPath j := by
  unfold removeByPath getPath
  rw [h]
  dsimp only
  rw [Table.lookup_erase_if]
  split
  · rfl
  · rfl

theorem rename_unmapped {oldPath : Str}
    (h : AList.lookup (normalizePath oldPath) m.pathToInode = none) (now : Now) (newPath : Str) :
    m.rename now oldPath newPath = m := by
  simp only [InodeManager.rename]
  rw [h]

theorem getPath_rename {oldPath : Str} {inode : ℕ}
    (h : AList.lookup (normalizePath oldPath) m.pathToInode = some inode) (now : Now)
    (newPath : Str) (j : ℕ) :
    (m.rename now oldPath newPath).getPath j =
      if j = inode then (m.getPath inode).map fun _ => normalizePath newPath
      else m.getPath j := by
  simp only [InodeManager.rename, getPath]
  rw [h]
  dsimp only
  rw [Table.lookup_modify]
  split
  · rw [Option.map_map, Option.map_map]
    rfl
  · rfl

theorem lookup_rename {oldPath : Str} {inode : ℕ}
    (h : AList.lookup (normalizePath oldPath) m.pathToInode = some inode) (now : Now)
    (newPath q : Str) :
    AList.lookup q (m.rename now oldPath newPath).pathToInode =
      if q = normalizePath newPath then some inode
      else if q = normalizePath oldPath then none else AList.lookup q m.pathToInode := by
  simp only [InodeManager.rename]
  rw [h]
  dsimp only
  rw [Table.lookup_insert_if, Table.lookup_erase_if]

theorem getPath_eq_none_iff (m : InodeManager) (i : ℕ) :
    m.getPath i = none ↔ m.getEntry i = none :=
  Option.map_eq_none_iff

/-! ### Creation -/

/-- Interning a path keeps the names there are, if the next number is unused. -/
theorem Mapped.getOrCreateInode (h : m.Mapped) (hfresh : m.getEntry m.nextInode = none) (now : Now)
    (path : Str) (isDir : Bool) (size : ℕ) :
    (m.getOrCreateInode now path isDir size).2.Mapped ∧
      ∀ i p, m.Live i p → (m.getOrCreateInode now path isDir size).2.Live i p := by
  cases hp : AList.lookup (normalizePath path) m.pathToInode with
  | some inode =>
    rw [getOrCreateInode_mapped hp]
    exact ⟨h, fun _ _ hl => hl⟩
  | none =>
    have hget := getPath_getOrCreateInode hp now isDir size
    have hmap := lookup_getOrCreateInode hp now isDir size
    have hunused : m.getPath m.nextInode = none := (m.getPath_eq_none_iff _).mpr hfresh
    refine ⟨⟨?_, ?_⟩, ?_⟩
    · intro q i hq
      rw [hmap] at hq
      rw [hget]
      split at hq
      · next hqn =>
        cases hq
        rw [if_pos rfl, hqn]
      · have hold := h.forward q i hq
        rw [if_neg, hold]
        intro hin
        rw [hin, hunused] at hold
        cases hold
    · intro i q hq
      rw [hget] at hq
      split at hq
      · cases hq
        exact normalizePath_normalizePath path
      · exact h.normal i q hq
    · intro i q hl
      constructor
      · rw [hget, if_neg, hl.getPath]
        intro hin
        have hold := hl.getPath
        rw [hin, hunused] at hold
        cases hold
      · have hold := hl.getInode
        unfold getInode at hold ⊢
        rw [hmap, if_neg, hold]
        intro hqn
        rw [hqn, hp] at hold
        cases hold

/-! ### Removal -/

theorem Mapped.remove (h : m.Mapped) {path : Str} {inode : ℕ} (hi : m.getInode path = some inode) :
    (m.remove inode).Mapped ∧ ∀ i p, i ≠ inode → m.Live i p → (m.remove inode).Live i p := by
  have hlive := h.live hi
  refine ⟨⟨?_, ?_⟩, ?_⟩
  · intro q i hq
    rw [lookup_remove] at hq
    split at hq
    · cases hq
    · next hne =>
      have hold := h.forward q i hq
      rw [getPath_remove, if_neg, hold]
      intro hin
      rw [hin] at hold
      exact hne hold
  · intro i q hq
    rw [getPath_remove] at hq
    split at hq
    · cases hq
    · exact h.normal i q hq
  · intro i p hne hl
    constructor
    · rw [getPath_remove, if_neg hne, hl.getPath]
    · have hold := hl.getInode
      unfold getInode at hold ⊢
      rw [lookup_remove, if_neg, hold]
      intro heq
      rw [hlive.getPath] at heq
      have hsame : m.getInode path = some i := by
        unfold getInode
        rw [Option.some.inj heq]
        exact hold
      rw [hi] at hsame
      exact hne (Option.some.inj hsame).symm

/-! ### Renaming -/

/-- Renaming keeps the names of all inodes but those of the two paths. -/
theorem Mapped.rename (h : m.Mapped) (now : Now) (oldPath newPath : Str) :
    (m.rename now oldPath newPath).Mapped ∧ ∀ i p, m.getInode oldPath ≠ some i →
      m.getInode newPath ≠ some i → m.Live i p → (m.rename now oldPath newPath).Live i p := by
  cases hold : AList.lookup (normalizePath oldPath) m.pathToInode with
  | none =>
    rw [rename_unmapped hold]
    exact ⟨h, fun _ _ _ _ hl => hl⟩
  | some inode =>
    have hinode : m.getPath inode = some (normalizePath oldPath) := h.forward _ _ hold
    have hget := getPath_rename hold now newPath
    rw [hinode, Option.map_some] at hget
    have hmap := lookup_rename hold now newPath
    refine ⟨⟨?_, ?_⟩, ?_⟩
    · intro q i hq
      rw [hmap] at hq
      rw [hget]
      split at hq
      · next hqn =>
        cases hq
        rw [if_pos rfl, hqn]
      · split at hq
        · cases hq
        · next hqo =>
          have hfwd := h.forward q i hq
          rw [if_neg, hfwd]
          intro hin
          rw [hin, hinode] at hfwd
          exact hqo (Option.some.inj hfwd).symm
    · intro i q hq
      rw [hget] at hq
      split at hq
      · cases hq
        exact normalizePath_normalizePath newPath
      · exact h.normal i q hq
    · intro i p hsrc hdst hl
      have hi := hl.getInode
      constructor
      · rw [hget, if_neg, hl.getPath]
        intro hin
        rw [hin] at hsrc
        exact hsrc hold
      · unfold getInode at hi hsrc hdst ⊢
        rw [hmap, if_neg, if_neg, hi]
        · intro heq
          rw [heq] at hi
          exact hsrc hi
        · intro heq
          rw [heq] at hi
          exact hdst hi

theorem Mapped.rename_self (h : m.Mapped) (now : Now) {oldPath newPath : Str}
    (hsame : normalizePath oldPath = normalizePath newPath) {i : ℕ} {p : Str} (hl : m.Live i p) :
    (m.rename now oldPath newPath).Live i p := by
  by_cases hsrc : m.getInode oldPath = some i
  · have hname : p = normalizePath newPath := by
      have heq := h.getPath_of_getInode hsrc
      rw [hl.getPath, hsame] at heq
      exact Option.some.inj heq
    unfold getInode at hsrc
    constructor
    · rw [getPath_rename hsrc, if_pos rfl, hl.getPath, Option.map_some, hname]
    · unfold getInode
      rw [lookup_rename hsrc, if_pos]
      rw [hname, normalizePath_normalizePath]
  · have hdst : m.getInode newPath ≠ some i := by
      unfold getInode at hsrc ⊢
      rw [← hsame]
      exact hsrc
    exact (h.rename now oldPath newPath).2 i p hsrc hdst hl

end InodeManager

end ObsFuse
