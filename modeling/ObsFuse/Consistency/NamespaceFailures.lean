import ObsFuse.Fs.Mount

/-! # Namespace operations that fail

The operations on names ask the storage before they touch anything of their own. A rename
that fails at its second request has changed the bucket, but not the state of the process. -/

namespace ObsFuse
open Lib

inductive NamespaceCall where
  | create (now : Now) (parent : ℕ) (name : OsStr) (mode flags : ℕ)
  | mkdir (now : Now) (parent : ℕ) (name : OsStr) (mode : ℕ)
  | unlink (parent : ℕ) (name : OsStr)
  | rmdir (parent : ℕ) (name : OsStr)
  | rename (now : Now) (parent : ℕ) (name : OsStr) (newParent : ℕ) (newName : OsStr)
  deriving DecidableEq, Repr

namespace ObsFsCore

/-- The operation, with what it returns on success left out. -/
def perform (s : ObsFsCore) : NamespaceCall → FsResult Unit × ObsFsCore
  | .create now parent name mode flags =>
    let (r, s) := s.doCreate now parent name mode flags
    (r.map fun _ => (), s)
  | .mkdir now parent name mode =>
    let (r, s) := s.doMkdir now parent name mode
    (r.map fun _ => (), s)
  | .unlink parent name => s.doUnlink parent name
  | .rmdir parent name => s.doRmdir parent name
  | .rename now parent name newParent newName => s.doRename now parent name newParent newName

/-- The two states differ in the client at most, which counts the requests and holds the
bucket. -/
structure SameLocals (s s' : ObsFsCore) : Prop where
  inodes : s'.inodeMgr = s.inodeMgr
  metadata : s'.metadataCache = s.metadataCache
  data : s'.dataCache = s.dataCache
  readahead : s'.readahead = s.readahead
  writes : s'.writeBuffer = s.writeBuffer
  handles : s'.handleMgr = s.handleMgr
  config : s'.config = s.config
  spawned : s'.spawned = s.spawned

variable {s : ObsFsCore} {e : FsError}

theorem SameLocals.refl (s : ObsFsCore) : s.SameLocals s := ⟨rfl, rfl, rfl, rfl, rfl, rfl, rfl, rfl⟩

theorem sameLocals_client (s : ObsFsCore) (cl : ObsClient) :
    s.SameLocals { s with obsClient := cl } := ⟨rfl, rfl, rfl, rfl, rfl, rfl, rfl, rfl⟩

theorem doCreate_failed {now : Now} {parent : ℕ} {name : OsStr} {mode flags : ℕ}
    (h : (s.doCreate now parent name mode flags).1 = .err e) :
    s.SameLocals (s.doCreate now parent name mode flags).2 := by
  unfold doCreate at h ⊢
  cases hp : s.inodeMgr.getPath parent with
  | none => exact .refl s
  | some parentPath =>
    rw [hp] at h
    dsimp only at h ⊢
    generalize s.obsClient.write (s.obsPath (childPath parentPath name)) [] = r at h ⊢
    obtain ⟨_ | _, cl⟩ := r
    · exact s.sameLocals_client cl
    · cases h

theorem doMkdir_failed {now : Now} {parent : ℕ} {name : OsStr} {mode : ℕ}
    (h : (s.doMkdir now parent name mode).1 = .err e) :
    s.SameLocals (s.doMkdir now parent name mode).2 := by
  unfold doMkdir at h ⊢
  cases hp : s.inodeMgr.getPath parent with
  | none => exact .refl s
  | some parentPath =>
    rw [hp] at h
    dsimp only at h ⊢
    generalize s.obsClient.createDir (s.obsPath (childPath parentPath name)) = r at h ⊢
    obtain ⟨_ | _, cl⟩ := r
    · exact s.sameLocals_client cl
    · cases h

theorem doUnlink_failed {parent : ℕ} {name : OsStr}
    (h : (s.doUnlink parent name).1 = .err e) : s.SameLocals (s.doUnlink parent name).2 := by
  unfold doUnlink at h ⊢
  cases hp : s.inodeMgr.getPath parent with
  | none => exact .refl s
  | some parentPath =>
    rw [hp] at h
    dsimp only at h ⊢
    generalize s.obsClient.delete (s.obsPath (childPath parentPath name)) = r at h ⊢
    obtain ⟨_ | _, cl⟩ := r
    · exact s.sameLocals_client cl
    · cases h

/-- A directory is refused for what its listing says or because there is no listing; past
that, the operation succeeds whatever the delete of the marker does. -/
theorem doRmdir_failed {parent : ℕ} {name : OsStr}
    (h : (s.doRmdir parent name).1 = .err e) : s.SameLocals (s.doRmdir parent name).2 := by
  unfold doRmdir at h ⊢
  cases hp : s.inodeMgr.getPath parent with
  | none => exact .refl s
  | some parentPath =>
    rw [hp] at h
    dsimp only at h ⊢
    generalize s.obsClient.list (dirKey (s.obsPath (childPath parentPath name))) = r at h ⊢
    obtain ⟨_ | entries, cl⟩ := r
    · exact s.sameLocals_client cl
    · dsimp only at h ⊢
      split
      · exact s.sameLocals_client cl
      · next hempty =>
        rw [if_neg hempty] at h
        cases h

theorem doRename_failed {now : Now} {parent newParent : ℕ} {name newName : OsStr}
    (h : (s.doRename now parent name newParent newName).1 = .err e) :
    s.SameLocals (s.doRename now parent name newParent newName).2 := by
  unfold doRename at h ⊢
  split
  · next parentPath newParentPath hp hq =>
    rw [hp, hq] at h
    dsimp only at h ⊢
    generalize s.obsClient.copy (s.obsPath (childPath parentPath name))
      (s.obsPath (childPath newParentPath newName)) = r at h ⊢
    obtain ⟨_ | _, cl⟩ := r
    · exact s.sameLocals_client cl
    · dsimp only at h ⊢
      generalize cl.delete (s.obsPath (childPath parentPath name)) = r at h ⊢
      obtain ⟨_ | _, cl'⟩ := r
      · exact s.sameLocals_client cl'
      · cases h
  · exact .refl s

end ObsFsCore

/-- A namespace operation that returns an error leaves all state of the process as it was, in
every state and whatever requests fail. -/
theorem failed_call_keeps_locals {s : ObsFsCore} {call : NamespaceCall} {e : FsError}
    (h : (s.perform call).1 = .err e) : s.SameLocals (s.perform call).2 := by
  cases call with
  | create now parent name mode flags =>
    exact ObsFsCore.doCreate_failed (Outcome.map_eq_err.mp h)
  | mkdir now parent name mode =>
    exact ObsFsCore.doMkdir_failed (Outcome.map_eq_err.mp h)
  | unlink parent name => exact ObsFsCore.doUnlink_failed h
  | rmdir parent name => exact ObsFsCore.doRmdir_failed h
  | rename now parent name newParent newName => exact ObsFsCore.doRename_failed h

/-- A rename whose delete fails: the bucket has both names, the process knows only the old. -/
theorem half_done_rename_keeps_locals :
    let client : ObsClient := { ObsClient.holding .plain [['f']] with
      faults := fun n => if n = 2 then some .rateLimited else none }
    let s := ((ObsFsCore.new .basic Config.basic_valid (.still client)).doLookup ⟨0, 0⟩ 1
      ['f'.toUInt8]).2
    let call : NamespaceCall := .rename ⟨1, 1⟩ 1 ['f'.toUInt8] 1 ['g'.toUInt8]
    (s.perform call).1 = .err .ioError ∧
      (s.perform call).2.obsClient.objects.keys = [['g'], ['f']] ∧
      s.SameLocals (s.perform call).2 := by
  intro client s call
  have hfailed : (s.perform call).1 = .err .ioError := by decide
  exact ⟨hfailed, by decide, failed_call_keeps_locals hfailed⟩

end ObsFuse
