import ObsFuse.Fs.Frames
import ObsFuse.Fs.Steps
import ObsFuse.Fs.ReadPath
import ObsFuse.Fs.Mount

/-! # What serves reads, along runs

Only reads, writes, unlinks, truncations and prefetches touch the data cache or the read-ahead,
and none of them spoils the disk tier. -/

namespace ObsFuse
open Lib

/-- The operations that touch what serves reads. -/
def FsOp.touchesReads : FsOp → Bool
  | .read .. | .write .. | .unlink .. | .truncate .. | .prefetch .. => true
  | _ => false

namespace ObsFsCore

/-- The two states have the same data cache and read-ahead, and the same prefetches to run. -/
structure SameReads (s s' : ObsFsCore) : Prop where
  dataCache : s'.dataCache = s.dataCache
  readahead : s'.readahead = s.readahead
  spawned : s'.spawned = s.spawned

theorem SameFiles.sameReads {s s' : ObsFsCore} (h : s.SameFiles s') : s.SameReads s' :=
  ⟨h.dataCache, h.readahead, h.spawned⟩

/-- All other operations leave alone what serves reads. -/
theorem step_sameReads {op : FsOp} (hop : op.touchesReads = false) (s : ObsFsCore) :
    s.SameReads (s.step op) := by
  cases op with
  | read now inode fh offset size => cases hop
  | write now inode fh offset data => cases hop
  | unlink parent name => cases hop
  | truncate now inode size => cases hop
  | prefetch now n permit => cases hop
  | lookup now parent name => exact (s.doLookup_sameFiles now parent name).sameReads
  | readdir now inode offset => exact (s.doReaddir_sameFiles now inode offset).sameReads
  | getattr now inode => exact (s.doGetattr_sameFiles now inode).sameReads
  | mkdir now parent name mode => exact (s.doMkdir_sameFiles now parent name mode).sameReads
  | rmdir parent name => exact (s.doRmdir_sameFiles parent name).sameReads
  | rename now parent name newParent newName =>
    exact (s.doRename_sameFiles now parent name newParent newName).sameReads
  | create now parent name mode flags =>
    simp only [step, doCreate, internInode]
    split
    · exact ⟨rfl, rfl, rfl⟩
    · split
      · exact ⟨rfl, rfl, rfl⟩
      · exact ⟨rfl, rfl, rfl⟩
  | openFile now inode flags => exact ⟨rfl, rfl, rfl⟩
  | opendir now inode flags => exact ⟨rfl, rfl, rfl⟩
  | close fh => exact ⟨rfl, rfl, rfl⟩
  | release inode fh =>
    simp only [step, doRelease]
    split
    · exact ⟨rfl, rfl, rfl⟩
    · exact ⟨rfl, rfl, rfl⟩
    · exact ⟨rfl, rfl, rfl⟩
  | fsync inode => exact ⟨rfl, rfl, rfl⟩
  | flush inode => exact ⟨rfl, rfl, rfl⟩
  | flushAll order => exact ⟨rfl, rfl, rfl⟩
  | flushExpired now order => exact ⟨rfl, rfl, rfl⟩

/-! ### The data cache -/

theorem doRead_wellFormed {s : ObsFsCore} (h : s.dataCache.WellFormed) (now : Now)
    (inode fh offset size : ℕ) :
    (s.doRead now inode fh offset size).2.dataCache.WellFormed := by
  have hget : (s.dataCache.get inode offset).2.WellFormed :=
    DataCache.get_kept DiskCache.wellFormed_kept h inode offset
  have hremote : ∀ obs,
      ((s.askedCache now inode fh offset size).readRemote now inode obs offset
        size).2.dataCache.WellFormed := by
    intro obs
    unfold readRemote
    split
    · exact hget
    · exact DataCache.putMemory_kept DiskCache.wellFormed_kept hget _ _
  cases hpath : s.inodeMgr.getPath inode with
  | none =>
    unfold doRead
    rw [hpath]
    exact h
  | some path =>
    rw [s.doRead_eq hpath]
    split
    · exact h
    · split
      · exact hget
      · exact hremote _

theorem step_wellFormed {s : ObsFsCore} (h : s.dataCache.WellFormed) (op : FsOp) :
    (s.step op).dataCache.WellFormed := by
  cases hop : op.touchesReads with
  | false =>
    rw [(step_sameReads hop s).dataCache]
    exact h
  | true =>
    cases op with
    | read now inode fh offset size => exact doRead_wellFormed h now inode fh offset size
    | write now inode fh offset data =>
      simp only [step, doWrite]
      split
      · exact h
      · split
        · exact h
        · exact h
        · exact h
    | unlink parent name =>
      simp only [step, doUnlink]
      split
      · exact h
      · split
        · exact h
        · split
          · exact DataCache.invalidate_kept DiskCache.wellFormed_kept h _
          · exact h
    | truncate now inode size =>
      simp only [step, doTruncate]
      split
      · exact h
      · split
        · exact DataCache.invalidate_kept DiskCache.wellFormed_kept h _
        · exact h
        · exact h
    | prefetch now n permit =>
      simp only [step, prefetchTask]
      split
      · exact h
      · split
        · exact h
        · split
          · exact h
          · exact h
    | _ => cases hop

theorem run_wellFormed {s : ObsFsCore} (h : s.dataCache.WellFormed) (ops : List FsOp) :
    (run step s ops).dataCache.WellFormed := by
  have hstep : ∀ (s : ObsFsCore) op, s.dataCache.WellFormed → (s.step op).dataCache.WellFormed :=
    fun _ op hs => step_wellFormed hs op
  exact run_kept hstep h ops

theorem new_wellFormed (config : Config) (valid : config.validate = .ok ()) (env : Surroundings) :
    (ObsFsCore.new config valid env).dataCache.WellFormed := by
  intro d hd
  obtain ⟨dir, -, rfl⟩ := Option.map_eq_some_iff.mp hd
  intro key e he
  cases he

theorem mounted_wellFormed (config : Config) (valid : config.validate = .ok ())
    (env : Surroundings) (ops : List FsOp) :
    (run step (.new config valid env) ops).dataCache.WellFormed :=
  run_wellFormed (new_wellFormed config valid env) ops

end ObsFsCore

end ObsFuse
