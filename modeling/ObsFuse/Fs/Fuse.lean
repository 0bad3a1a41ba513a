import ObsFuse.Fs.Core
import ObsFuse.Lib.Runs

/-! # The FUSE requests (src/fs/fuse_impl.rs)

Each handler asks the core and passes the core's error number on. Replies carry the
attributes as the core has them, before their conversion for the kernel. -/

namespace ObsFuse
open Lib

/-- `libc::O_TRUNC` on Linux. -/
def oTrunc : ℕ := 0o1000

structure Timestamp where
  sec : ℤ
  nsec : ℕ
  deriving DecidableEq, Repr

/-- A Unix `SystemTime` has 64-bit seconds too, so each time of a request has one. -/
def timestampToSystemtime (ts : Timestamp) : SystemTime :=
  if 0 ≤ ts.sec then ts.sec * 1000000000 + ts.nsec else 0

structure SetAttr where
  mode : Option ℕ
  uid : Option ℕ
  gid : Option ℕ
  size : Option ℕ
  atime : Option Timestamp
  mtime : Option Timestamp
  deriving DecidableEq, Repr

namespace SetAttr

def none : SetAttr := ⟨.none, .none, .none, .none, .none, .none⟩

/-- The fields that `setattr` applies in both of its branches. -/
def apply (set : SetAttr) (attr : FileAttr) : FileAttr :=
  { attr with
    perm := (set.mode.map (· &&& 0o7777)).getD attr.perm
    uid := set.uid.getD attr.uid
    gid := set.gid.getD attr.gid
    size := set.size.getD attr.size
    blocks := (set.size.map fun size => u64 (size + 511) / 512).getD attr.blocks }

def applyTimes (set : SetAttr) (attr : FileAttr) : FileAttr :=
  { attr with
    atime := (set.atime.map timestampToSystemtime).getD attr.atime
    mtime := (set.mtime.map timestampToSystemtime).getD attr.mtime }

end SetAttr

inductive FuseRequest where
  | lookup (now : Now) (parent : ℕ) (name : OsStr)
  | getattr (now : Now) (inode : ℕ)
  | setattr (now : Now) (inode : ℕ) (set : SetAttr)
  | openFile (now : Now) (inode flags : ℕ)
  | read (now : Now) (inode fh offset size : ℕ)
  | write (now : Now) (inode fh offset : ℕ) (data : Bytes)
  | release (inode fh : ℕ)
  | fsync (inode : ℕ)
  | opendir (now : Now) (inode flags : ℕ)
  | readdir (now : Now) (inode : ℕ) (offset : ℤ)
  | releasedir (inode fh : ℕ)
  | create (now : Now) (parent : ℕ) (name : OsStr) (mode flags : ℕ)
  | mkdir (now : Now) (parent : ℕ) (name : OsStr) (mode : ℕ)
  | unlink (parent : ℕ) (name : OsStr)
  | rmdir (parent : ℕ) (name : OsStr)
  | rename (now : Now) (parent : ℕ) (name : OsStr) (newParent : ℕ) (newName : OsStr)
  | flush (inode : ℕ)
  | access (inode : ℕ)
  | destroy (order : IterOrder ℕ)

inductive FuseReply where
  | entry (ttl : ℕ) (attr : FileAttr) (generation : ℕ)
  | attr (ttl : ℕ) (attr : FileAttr)
  | opened (fh flags : ℕ)
  | created (ttl : ℕ) (attr : FileAttr) (generation fh flags : ℕ)
  | data (data : Bytes)
  | written (n : ℕ)
  | directory (entries : List DirEntry)
  | done
  deriving DecidableEq, Repr

def FuseReply.handle : FuseReply → Option ℕ
  | .opened fh _ | .created _ _ _ fh _ => some fh
  | _ => none

namespace ObsFs

def attrTtl (core : ObsFsCore) : ℕ := core.metadataCache.config.attrTtl

def entryTtl (core : ObsFsCore) : ℕ := core.metadataCache.config.dirTtl

def updateAttr (core : ObsFsCore) (now : Now) (inode : ℕ) (set : SetAttr) :
    FsResult FileAttr × ObsFsCore :=
  let (cached, cache) := core.metadataCache.getAttr now.instant inode
  match cached with
  | some attr =>
    let attr := set.applyTimes (set.apply attr)
    (.ok attr, { core with metadataCache := cache.putAttr now.instant inode attr })
  | none =>
    match core.inodeMgr.getEntry inode with
    | none => (.err .notFound, { core with metadataCache := cache })
    | some entry =>
      let attr := set.apply entry.attr
      (.ok attr, { core with metadataCache := cache.putAttr now.instant inode attr })

def setattr (core : ObsFsCore) (now : Now) (inode : ℕ) (set : SetAttr) :
    FsResult FileAttr × ObsFsCore :=
  match set.size with
  | some size =>
    match core.doTruncate now inode size with
    | (.ok _, core) => updateAttr core now inode set
    | (.err e, core) => (.err e, core)
    | (.loops, core) => (.loops, core)
  | none => updateAttr core now inode set

/-- `ObsFs::open`: the handle is taken before the truncation, which may fail. -/
def openFile (core : ObsFsCore) (now : Now) (inode flags : ℕ) : FsResult ℕ × ObsFsCore :=
  let (fh, core) := core.doOpen now inode flags
  if flags &&& oTrunc ≠ 0 then
    match core.doTruncate now inode 0 with
    | (.ok _, core) => (.ok fh, core)
    | (.err e, core) => (.err e, core)
    | (.loops, core) => (.loops, core)
  else (.ok fh, core)

def serve (core : ObsFsCore) : FuseRequest → FsResult FuseReply × ObsFsCore
  | .lookup now parent name =>
    let (r, core) := core.doLookup now parent name
    (r.map fun found => .entry (entryTtl core) found.2 0, core)
  | .getattr now inode =>
    let (r, core) := core.doGetattr now inode
    (r.map fun attr => .attr (attrTtl core) attr, core)
  | .setattr now inode set =>
    let (r, core) := setattr core now inode set
    (r.map fun attr => .attr (attrTtl core) attr, core)
  | .openFile now inode flags =>
    let (r, core) := openFile core now inode flags
    (r.map fun fh => .opened fh 0, core)
  | .read now inode fh offset size =>
    let (r, core) := core.doRead now inode fh offset size
    (r.map .data, core)
  | .write now inode fh offset data =>
    let (r, core) := core.doWrite now inode fh offset data
    (r.map fun written => .written (u32 written), core)
  | .release inode fh =>
    let (r, core) := core.doRelease inode fh
    (r.map fun _ => .done, core)
  | .fsync inode =>
    let (r, core) := core.doFsync inode
    (r.map fun _ => .done, core)
  | .opendir now inode flags =>
    let (fh, core) := core.doOpendir now inode flags
    (.ok (.opened fh 0), core)
  | .readdir now inode offset =>
    let (r, core) := core.doReaddir now inode offset
    (r.map .directory, core)
  | .releasedir _ fh => (.ok .done, core.doClose fh)
  | .create now parent name mode flags =>
    let (r, core) := core.doCreate now parent name mode flags
    (r.map fun made => .created (entryTtl core) made.2.1 0 made.2.2 0, core)
  | .mkdir now parent name mode =>
    let (r, core) := core.doMkdir now parent name mode
    (r.map fun made => .entry (entryTtl core) made.2 0, core)
  | .unlink parent name =>
    let (r, core) := core.doUnlink parent name
    (r.map fun _ => .done, core)
  | .rmdir parent name =>
    let (r, core) := core.doRmdir parent name
    (r.map fun _ => .done, core)
  | .rename now parent name newParent newName =>
    let (r, core) := core.doRename now parent name newParent newName
    (r.map fun _ => .done, core)
  | .flush inode =>
    let (r, core) := core.doFlush inode
    (r.map fun _ => .done, core)
  | .access inode => ((core.doAccess inode).map fun _ => .done, core)
  | .destroy order => (.ok .done, (core.flushAll order).2)

end ObsFs

end ObsFuse
