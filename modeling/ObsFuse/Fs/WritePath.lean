import ObsFuse.Fs.Core
import ObsFuse.Cache.FileBuffer

/-! # What the core does to the write buffer

`do_write`, `do_release`, `do_flush` and `do_fsync` seen from the write buffer and the
client. Everything else they touch is left to the lemmas about that component. -/

namespace ObsFuse
open Lib

namespace ObsFsCore
variable (s : ObsFsCore) {inode : ℕ} {path : Str}

/-- The size that `do_write` hands to the write buffer: that of the attribute cache. -/
def knownSize (now : Instant) (inode : ℕ) : ℕ :=
  ((s.metadataCache.getAttr now inode).1.map (·.size)).getD 0

def bufferWrite (now : Now) (inode : ℕ) (path : Str) (offset : ℕ) (data : Bytes) :
    WriteResult ℕ × WriteBuffer × ObsClient :=
  s.writeBuffer.write s.obsClient now.instant inode (s.obsPath path) offset data
    (s.knownSize now.instant inode)

theorem doWrite_buffer (h : s.inodeMgr.getPath inode = some path) (now : Now) (fh offset : ℕ)
    (data : Bytes) :
    (s.doWrite now inode fh offset data).2.writeBuffer =
        (s.bufferWrite now inode path offset data).2.1 ∧
      (s.doWrite now inode fh offset data).2.obsClient =
        (s.bufferWrite now inode path offset data).2.2 ∧
      (s.doWrite now inode fh offset data).1 =
        (s.bufferWrite now inode path offset data).1.mapErr fun _ => .ioError := by
  unfold bufferWrite knownSize doWrite
  rw [h]
  dsimp only
  generalize s.writeBuffer.write s.obsClient now.instant inode (s.obsPath path) offset data
    (((s.metadataCache.getAttr now.instant inode).1.map (·.size)).getD 0) = r
  obtain ⟨_ | _ | _, wb, cl⟩ := r <;> exact ⟨rfl, rfl, rfl⟩

/-- A write that succeeds has a path, reports the length of its data, takes the written
range out of the data cache and leaves the prefetched data alone. -/
theorem doWrite_ok {now : Now} {inode fh offset n : ℕ} {data : Bytes}
    (h : (s.doWrite now inode fh offset data).1 = .ok n) :
    n = data.length ∧ (∃ path, s.inodeMgr.getPath inode = some path) ∧
      (s.doWrite now inode fh offset data).2.dataCache =
        s.dataCache.invalidateRange inode offset data.length ∧
      (s.doWrite now inode fh offset data).2.readahead = s.readahead := by
  cases hp : s.inodeMgr.getPath inode with
  | none =>
    unfold doWrite at h
    rw [hp] at h
    cases h
  | some path =>
    unfold doWrite at h ⊢
    rw [hp] at h ⊢
    dsimp only at h ⊢
    cases hw : s.writeBuffer.write s.obsClient now.instant inode (s.obsPath path) offset data
        (((s.metadataCache.getAttr now.instant inode).1.map (·.size)).getD 0) with
    | mk r rest =>
      have hr : r = .ok n → n = data.length := by
        intro hrn
        have hfst := congrArg (·.1) hw
        exact WriteBuffer.write_ok (hfst.trans hrn)
      rw [hw] at h
      cases r with
      | ok written =>
        obtain rfl := Outcome.ok.inj h
        have hlen := hr rfl
        exact ⟨hlen, ⟨path, rfl⟩, by rw [← hlen], rfl⟩
      | err e => cases h
      | loops => cases h

@[simp] theorem doWrite_config (now : Now) (inode fh offset : ℕ) (data : Bytes) :
    (s.doWrite now inode fh offset data).2.config = s.config := by
  unfold doWrite
  split
  · rfl
  · dsimp only
    split <;> rfl

@[simp] theorem doWrite_getPath (now : Now) (inode fh offset : ℕ) (data : Bytes) (j : ℕ) :
    (s.doWrite now inode fh offset data).2.inodeMgr.getPath j = s.inodeMgr.getPath j := by
  unfold doWrite
  split
  · rfl
  · dsimp only
    split
    · rfl
    · rfl
    · exact InodeManager.getPath_updateSize ..

@[simp] theorem doWrite_pathToInode (now : Now) (inode fh offset : ℕ) (data : Bytes) :
    (s.doWrite now inode fh offset data).2.inodeMgr.pathToInode = s.inodeMgr.pathToInode := by
  unfold doWrite
  split
  · rfl
  · dsimp only
    split <;> rfl

theorem doRelease_buffer (inode fh : ℕ) :
    (s.doRelease inode fh).2.writeBuffer = (s.writeBuffer.release s.obsClient inode).2.1 ∧
      (s.doRelease inode fh).2.obsClient = (s.writeBuffer.release s.obsClient inode).2.2 ∧
      (s.doRelease inode fh).1 =
        (s.writeBuffer.release s.obsClient inode).1.mapErr fun _ => .ioError := by
  unfold doRelease
  generalize s.writeBuffer.release s.obsClient inode = r
  obtain ⟨_ | _ | _, wb, cl⟩ := r <;> exact ⟨rfl, rfl, rfl⟩

end ObsFsCore

end ObsFuse
