import ObsFuse.Fs.Core
import ObsFuse.Lib.Runs

/-! # Runs of the filesystem core

Every operation as a label, so that a sequence of calls is a list. -/

namespace ObsFuse
open Lib

inductive FsOp where
  | lookup (now : Now) (parent : ℕ) (name : OsStr)
  | readdir (now : Now) (inode : ℕ) (offset : ℤ)
  | getattr (now : Now) (inode : ℕ)
  | read (now : Now) (inode fh offset size : ℕ)
  | write (now : Now) (inode fh offset : ℕ) (data : Bytes)
  | create (now : Now) (parent : ℕ) (name : OsStr) (mode flags : ℕ)
  | mkdir (now : Now) (parent : ℕ) (name : OsStr) (mode : ℕ)
  | unlink (parent : ℕ) (name : OsStr)
  | rmdir (parent : ℕ) (name : OsStr)
  | rename (now : Now) (parent : ℕ) (name : OsStr) (newParent : ℕ) (newName : OsStr)
  | openFile (now : Now) (inode flags : ℕ)
  | opendir (now : Now) (inode flags : ℕ)
  | close (fh : ℕ)
  | release (inode fh : ℕ)
  | fsync (inode : ℕ)
  | flush (inode : ℕ)
  | flushAll (order : IterOrder ℕ)
  | flushExpired (now : Now) (order : IterOrder ℕ)
  | truncate (now : Now) (inode size : ℕ)
  | prefetch (now : Now) (n : ℕ) (permit : Bool)

def ObsFsCore.step (s : ObsFsCore) : FsOp → ObsFsCore
  | .lookup now parent name => (s.doLookup now parent name).2
  | .readdir now inode offset => (s.doReaddir now inode offset).2
  | .getattr now inode => (s.doGetattr now inode).2
  | .read now inode fh offset size => (s.doRead now inode fh offset size).2
  | .write now inode fh offset data => (s.doWrite now inode fh offset data).2
  | .create now parent name mode flags => (s.doCreate now parent name mode flags).2
  | .mkdir now parent name mode => (s.doMkdir now parent name mode).2
  | .unlink parent name => (s.doUnlink parent name).2
  | .rmdir parent name => (s.doRmdir parent name).2
  | .rename now parent name newParent newName => (s.doRename now parent name newParent newName).2
  | .openFile now inode flags => (s.doOpen now inode flags).2
  | .opendir now inode flags => (s.doOpendir now inode flags).2
  | .close fh => s.doClose fh
  | .release inode fh => (s.doRelease inode fh).2
  | .fsync inode => (s.doFsync inode).2
  | .flush inode => (s.doFlush inode).2
  | .flushAll order => (s.flushAll order).2
  | .flushExpired now order => (s.flushExpired now order).2
  | .truncate now inode size => (s.doTruncate now inode size).2
  | .prefetch now n permit => s.prefetchTask now n permit

end ObsFuse
