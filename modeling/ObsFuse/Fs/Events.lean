import ObsFuse.Fs.Fuse
import ObsFuse.Fs.Steps
import ObsFuse.Lib.Simulation

/-! # What happens to a mounted core

An adapter acts on the core by its operations; besides, it takes attributes from the metadata
cache and puts them there itself. Another client may change the bucket between any two events. -/

namespace ObsFuse
open Lib

inductive CoreEvent where
  | op (op : FsOp)
  | cacheGet (now : Now) (inode : ℕ)
  | cachePut (now : Now) (inode : ℕ) (attr : FileAttr)
  | foreign (objects : Bucket)

def ObsFsCore.event (s : ObsFsCore) : CoreEvent → ObsFsCore
  | .op op => s.step op
  | .cacheGet now inode =>
    { s with metadataCache := (s.metadataCache.getAttr now.instant inode).2 }
  | .cachePut now inode attr =>
    { s with metadataCache := s.metadataCache.putAttr now.instant inode attr }
  | .foreign objects => { s with obsClient := { s.obsClient with objects := objects } }

namespace ObsFs

/-- The events of `ObsFs::setattr` past the truncation. -/
def updateEvents (core : ObsFsCore) (now : Now) (inode : ℕ) (set : SetAttr) : List CoreEvent :=
  .cacheGet now inode ::
    match (updateAttr core now inode set).1 with
    | .ok attr => [.cachePut now inode attr]
    | _ => []

def setattrEvents (core : ObsFsCore) (now : Now) (inode : ℕ) (set : SetAttr) : List CoreEvent :=
  match set.size with
  | some size =>
    .op (.truncate now inode size) ::
      match core.doTruncate now inode size with
      | (.ok _, core) => updateEvents core now inode set
      | _ => []
  | none => updateEvents core now inode set

/-- The events at the core that a request is made of. -/
def events (core : ObsFsCore) : FuseRequest → List CoreEvent
  | .lookup now parent name => [.op (.lookup now parent name)]
  | .getattr now inode => [.op (.getattr now inode)]
  | .setattr now inode set => setattrEvents core now inode set
  | .openFile now inode flags =>
    .op (.openFile now inode flags) ::
      if flags &&& oTrunc ≠ 0 then [.op (.truncate now inode 0)] else []
  | .read now inode fh offset size => [.op (.read now inode fh offset size)]
  | .write now inode fh offset data => [.op (.write now inode fh offset data)]
  | .release inode fh => [.op (.release inode fh)]
  | .fsync inode => [.op (.fsync inode)]
  | .opendir now inode flags => [.op (.opendir now inode flags)]
  | .readdir now inode offset => [.op (.readdir now inode offset)]
  | .releasedir _ fh => [.op (.close fh)]
  | .create now parent name mode flags => [.op (.create now parent name mode flags)]
  | .mkdir now parent name mode => [.op (.mkdir now parent name mode)]
  | .unlink parent name => [.op (.unlink parent name)]
  | .rmdir parent name => [.op (.rmdir parent name)]
  | .rename now parent name newParent newName =>
    [.op (.rename now parent name newParent newName)]
  | .flush inode => [.op (.flush inode)]
  | .access _ => []
  | .destroy order => [.op (.flushAll order)]

theorem updateAttr_events (core : ObsFsCore) (now : Now) (inode : ℕ) (set : SetAttr) :
    (updateAttr core now inode set).2 =
      run ObsFsCore.event core (updateEvents core now inode set) := by
  unfold updateEvents updateAttr
  generalize hgot : core.metadataCache.getAttr now.instant inode = got
  obtain ⟨_ | attr, cache⟩ := got
  · dsimp only
    cases core.inodeMgr.getEntry inode with
    | none => simp [ObsFsCore.event, hgot]
    | some entry => simp [ObsFsCore.event, hgot]
  · simp [ObsFsCore.event, hgot]

theorem setattr_events (core : ObsFsCore) (now : Now) (inode : ℕ) (set : SetAttr) :
    (setattr core now inode set).2 =
      run ObsFsCore.event core (setattrEvents core now inode set) := by
  unfold setattrEvents setattr
  cases set.size with
  | none => exact updateAttr_events core now inode set
  | some size =>
    dsimp only
    rw [run_cons]
    show _ = run ObsFsCore.event (core.doTruncate now inode size).2 _
    generalize core.doTruncate now inode size = r
    obtain ⟨_ | e | _, core'⟩ := r
    · exact updateAttr_events core' now inode set
    · rfl
    · rfl

theorem openFile_events (core : ObsFsCore) (now : Now) (inode flags : ℕ) :
    (openFile core now inode flags).2 =
      run ObsFsCore.event core (events core (.openFile now inode flags)) := by
  unfold openFile events
  dsimp only
  split
  · rw [run_cons, run_cons, run_nil]
    show _ = ((core.doOpen now inode flags).2.doTruncate now inode 0).2
    generalize (core.doOpen now inode flags).2.doTruncate now inode 0 = r
    obtain ⟨_ | e | _, core'⟩ := r
    · rfl
    · rfl
    · rfl
  · rfl

/-- The FUSE adapter changes the core by its operations and the cached attributes alone. -/
theorem serve_events (core : ObsFsCore) (r : FuseRequest) :
    (serve core r).2 = run ObsFsCore.event core (events core r) := by
  cases r with
  | setattr now inode set => exact setattr_events core now inode set
  | openFile now inode flags => exact openFile_events core now inode flags
  | _ => rfl

end ObsFs

end ObsFuse
