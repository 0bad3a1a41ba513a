import ObsFuse.Fs.LookupPath

/-! # What the operations on names leave alone

Lookups, listings, `do_mkdir`, `do_rmdir` and `do_rename` touch the inodes, the metadata cache
and the client only. -/

namespace ObsFuse
open Lib

namespace ObsFsCore

/-- The two states differ in the inodes, the metadata cache and the client at most. -/
structure SameFiles (s s' : ObsFsCore) : Prop where
  config : s'.config = s.config
  dataCache : s'.dataCache = s.dataCache
  readahead : s'.readahead = s.readahead
  spawned : s'.spawned = s.spawned
  writeBuffer : s'.writeBuffer = s.writeBuffer
  handleMgr : s'.handleMgr = s.handleMgr

theorem SameFiles.of_names (s : ObsFsCore) (inodeMgr : InodeManager) (cache : MetadataCache)
    (cl : ObsClient) :
    s.SameFiles { s with inodeMgr := inodeMgr, metadataCache := cache, obsClient := cl } :=
  ⟨rfl, rfl, rfl, rfl, rfl, rfl⟩

theorem SameFiles.refl (s : ObsFsCore) : s.SameFiles s := .of_names s ..

theorem SameFiles.trans {s t u : ObsFsCore} (h : s.SameFiles t) (h' : t.SameFiles u) :
    s.SameFiles u where
  config := h'.config.trans h.config
  dataCache := h'.dataCache.trans h.dataCache
  readahead := h'.readahead.trans h.readahead
  spawned := h'.spawned.trans h.spawned
  writeBuffer := h'.writeBuffer.trans h.writeBuffer
  handleMgr := h'.handleMgr.trans h.handleMgr

variable (s : ObsFsCore)

theorem lookupRemote_sameFiles (now : Now) (path : Str) :
    s.SameFiles (s.lookupRemote now path).2 := by
  rw [lookupRemote_eq]
  generalize s.probe now path = r
  obtain ⟨_ | ⟨isDir, size, attr⟩, cl⟩ := r
  · exact .of_names s ..
  · exact .of_names s ..

theorem doLookup_sameFiles (now : Now) (parent : ℕ) (name : OsStr) :
    s.SameFiles (s.doLookup now parent name).2 := by
  have hcache : ∀ cache, s.SameFiles { s with metadataCache := cache } :=
    fun cache => .of_names s ..
  unfold doLookup
  split
  · exact .refl s
  · dsimp only
    split
    · exact hcache _
    · split
      · exact (hcache _).trans (lookupRemote_sameFiles _ now _)
      · split
        · exact hcache _
        · exact (hcache _).trans (lookupRemote_sameFiles _ now _)

theorem doGetattr_sameFiles (now : Now) (inode : ℕ) : s.SameFiles (s.doGetattr now inode).2 := by
  unfold doGetattr
  dsimp only
  split
  · exact .of_names s ..
  · split
    · exact .of_names s ..
    · split
      · exact .of_names s ..
      · exact .of_names s ..

theorem readdirLoop_sameFiles (now : Now) (path : Str) (offset : ℤ) (infos : List ObjectMeta)
    (entryOffset : ℤ) : s.SameFiles (readdirLoop now path offset infos entryOffset s).2.2 := by
  induction infos generalizing entryOffset s with
  | nil => exact .refl s
  | cons info infos ih =>
    unfold readdirLoop
    split
    · exact ih s _
    · dsimp only
      split
      · exact ih s _
      · have hentry : s.SameFiles (s.internInode now (joinPath path info.name) info.isDir info.size
            fun inode => s.config.permission.fromObjectMeta now inode info).2 := .of_names s ..
        exact hentry.trans (ih _ _)

theorem doReaddir_sameFiles (now : Now) (inode : ℕ) (offset : ℤ) :
    s.SameFiles (s.doReaddir now inode offset).2 := by
  unfold doReaddir
  split
  · exact .refl s
  · next path _ =>
    have hclient : ∀ cl, s.SameFiles { s with obsClient := cl } := fun cl => .of_names s ..
    dsimp only
    split
    · exact hclient _
    · next infos cl _ =>
      have hloop := (hclient cl).trans (readdirLoop_sameFiles _ now path offset infos 3)
      exact hloop.trans (.of_names _ ..)

theorem doMkdir_sameFiles (now : Now) (parent : ℕ) (name : OsStr) (mode : ℕ) :
    s.SameFiles (s.doMkdir now parent name mode).2 := by
  unfold doMkdir
  split
  · exact .refl s
  · dsimp only
    split
    · exact .of_names s ..
    · exact .of_names s ..

theorem doRmdir_sameFiles (parent : ℕ) (name : OsStr) :
    s.SameFiles (s.doRmdir parent name).2 := by
  unfold doRmdir
  split
  · exact .refl s
  · dsimp only
    split
    · exact .of_names s ..
    · split
      · exact .of_names s ..
      · split
        · exact .of_names s ..
        · exact .of_names s ..

theorem doRename_sameFiles (now : Now) (parent : ℕ) (name : OsStr) (newParent : ℕ)
    (newName : OsStr) : s.SameFiles (s.doRename now parent name newParent newName).2 := by
  unfold doRename
  split
  · dsimp only
    split
    · exact .of_names s ..
    · split
      · exact .of_names s ..
      · exact .of_names s ..
  · exact .refl s

end ObsFsCore

end ObsFuse
