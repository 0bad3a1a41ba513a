import ObsFuse.Fs.Attr
import ObsFuse.Fs.Handle
import ObsFuse.Cache.Metadata
import ObsFuse.Cache.Data
import ObsFuse.Cache.Readahead
import ObsFuse.Cache.WriteBuffer

/-! # The filesystem core (src/fs/core.rs)

Each operation takes the whole state and returns its result and the next state. It works
with one pair of clock readings; the data cache has its own sequence of readings. A
prefetch that `do_read` spawns is queued in `spawned` and runs as an operation of its
own. Metrics are left out. -/

namespace ObsFuse
open Lib

structure FsError where
  errno : ℕ
  deriving DecidableEq, Repr

namespace FsError

def ENOENT : ℕ := 2
def EIO : ℕ := 5
def ENOTEMPTY : ℕ := 39

def notFound : FsError where
  errno := ENOENT

def ioError : FsError where
  errno := EIO

def notEmpty : FsError where
  errno := ENOTEMPTY

end FsError

abbrev FsResult (α : Type) := Outcome FsError α

structure PrefetchJob where
  path : Str
  request : PrefetchRequest
  deriving DecidableEq, Repr

/-- `DirEntry` of src/fs/dir.rs. -/
structure DirEntry where
  inode : ℕ
  name : Str
  kind : FileKind
  offset : ℤ
  deriving DecidableEq, Repr

def DirEntry.dot (inode : ℕ) : DirEntry := ⟨inode, ['.'], .directory, 1⟩

def DirEntry.dotdot (parentInode : ℕ) : DirEntry := ⟨parentInode, ['.', '.'], .directory, 2⟩

def ObjectMeta.name (info : ObjectMeta) : Str := fileName info.path

/-- The fields of `Config` that the core reads itself. -/
structure CoreConfig where
  obsPrefix : Option Str
  permission : PermissionConfig
  deriving DecidableEq, Repr

structure ObsFsCore where
  inodeMgr : InodeManager
  metadataCache : MetadataCache
  dataCache : DataCache
  readahead : ReadaheadManager
  writeBuffer : WriteBuffer
  obsClient : ObsClient
  handleMgr : HandleManager
  config : CoreConfig
  spawned : List PrefetchJob

namespace ObsFsCore

def obsPath (s : ObsFsCore) (path : Str) : Str :=
  match s.config.obsPrefix with
  | some pre => if path = [] then pre else trimEnd pre ++ '/' :: path
  | none => path

theorem obsPath_congr {s s' : ObsFsCore} (h : s'.config = s.config) (path : Str) :
    s'.obsPath path = s.obsPath path := by
  simp only [obsPath, h]

def childPath (parent : Str) (name : OsStr) : Str := joinPath parent (toStringLossy name)

/-- The step that lookups, listings and creations share: an inode for the path, with the
attributes `attr` built for it put in the attribute cache. -/
def internInode (s : ObsFsCore) (now : Now) (path : Str) (isDir : Bool) (size : ℕ)
    (attr : ℕ → FileAttr) : (ℕ × FileAttr) × ObsFsCore :=
  let (inode, inodeMgr) := s.inodeMgr.getOrCreateInode now path isDir size
  ((inode, attr inode), { s with
    inodeMgr := inodeMgr
    metadataCache := s.metadataCache.putAttr now.instant inode (attr inode) })

/-- `ObsFsCore::do_lookup` from the point where both caches have missed. -/
def lookupRemote (s : ObsFsCore) (now : Now) (path : Str) :
    FsResult (ℕ × FileAttr) × ObsFsCore :=
  let obs := s.obsPath path
  let permission := s.config.permission
  match s.obsClient.stat obs with
  | (.ok info, cl) =>
    let (r, s) := { s with obsClient := cl }.internInode now path info.isDir info.size
      fun inode => permission.fromObjectMeta now inode info
    (.ok r, s)
  | (.error _, cl) =>
    match cl.stat (dirKey obs) with
    | (.ok info, cl) =>
      let (r, s) := { s with obsClient := cl }.internInode now path true 0
        fun inode => permission.fromObjectMeta now inode info
      (.ok r, s)
    | (.error _, cl) =>
      match cl.list (dirKey obs) with
      | (.ok (_ :: _), cl) =>
        let (r, s) := { s with obsClient := cl }.internInode now path true 0
          fun inode => permission.newDirectory now inode none
        (.ok r, s)
      | (_, cl) =>
        (.err .notFound, { s with
          obsClient := cl
          metadataCache := s.metadataCache.putNegative now.instant path })

def doLookup (s : ObsFsCore) (now : Now) (parent : ℕ) (name : OsStr) :
    FsResult (ℕ × FileAttr) × ObsFsCore :=
  match s.inodeMgr.getPath parent with
  | none => (.err .notFound, s)
  | some parentPath =>
    let path := childPath parentPath name
    let (negative, cache) := s.metadataCache.isNegative now.instant path
    let s := { s with metadataCache := cache }
    if negative then (.err .notFound, s)
    else
      match s.inodeMgr.getInode path with
      | none => s.lookupRemote now path
      | some inode =>
        let (attr, cache) := s.metadataCache.getAttr now.instant inode
        let s := { s with metadataCache := cache }
        match attr with
        | some attr => (.ok (inode, attr), s)
        | none => s.lookupRemote now path

/-- The loop of `do_readdir` over the listing: entries, child inodes and the next state,
from the entry offset `entryOffset` on. -/
def readdirLoop (now : Now) (path : Str) (offset : ℤ) :
    List ObjectMeta → ℤ → ObsFsCore → List DirEntry × List ℕ × ObsFsCore
  | [], _, s => ([], [], s)
  | info :: infos, entryOffset, s =>
    if entryOffset ≤ offset then readdirLoop now path offset infos (entryOffset + 1) s
    else
      let name := info.name
      if name = [] ∨ name = ['.'] ∨ name = ['.', '.'] then
        readdirLoop now path offset infos entryOffset s
      else
        let permission := s.config.permission
        let ((inode, _), s) := s.internInode now (joinPath path name) info.isDir info.size
          fun inode => permission.fromObjectMeta now inode info
        let kind := if info.isDir then FileKind.directory else .regularFile
        let (entries, inodes, s) := readdirLoop now path offset infos (entryOffset + 1) s
        (⟨inode, name, kind, entryOffset⟩ :: entries, inode :: inodes, s)

def doReaddir (s : ObsFsCore) (now : Now) (inode : ℕ) (offset : ℤ) :
    FsResult (List DirEntry) × ObsFsCore :=
  match s.inodeMgr.getPath inode with
  | none => (.err .notFound, s)
  | some path =>
    let obs := s.obsPath path
    let dots := if offset < 1 then [DirEntry.dot inode] else []
    let parentInode :=
      if inode = rootInode then rootInode
      else ((parentPath path).bind s.inodeMgr.getInode).getD rootInode
    let dotdots := if offset < 2 then [DirEntry.dotdot parentInode] else []
    let listKey := if obs = [] then [] else dirKey obs
    match s.obsClient.listDir listKey with
    | (.error _, cl) => (.err .ioError, { s with obsClient := cl })
    | (.ok infos, cl) =>
      let (entries, inodes, s) := readdirLoop now path offset infos 3 { s with obsClient := cl }
      (.ok (dots ++ dotdots ++ entries),
        { s with inodeMgr := s.inodeMgr.setChildren now inode inodes })

def doGetattr (s : ObsFsCore) (now : Now) (inode : ℕ) : FsResult FileAttr × ObsFsCore :=
  let (attr, cache) := s.metadataCache.getAttr now.instant inode
  let s := { s with metadataCache := cache }
  match attr with
  | some attr => (.ok attr, s)
  | none =>
    match s.inodeMgr.getPath inode with
    | none => (.err .notFound, s)
    | some path =>
      match s.obsClient.stat (s.obsPath path) with
      | (.error e, cl) =>
        (.err (if e = .notFound then .notFound else .ioError), { s with obsClient := cl })
      | (.ok info, cl) =>
        let attr := s.config.permission.fromObjectMeta now inode info
        (.ok attr, { s with
          obsClient := cl
          metadataCache := s.metadataCache.putAttr now.instant inode attr })

/-- The part of `do_read` past the caches: fetch, cache the data and spawn a prefetch. -/
def readRemote (s : ObsFsCore) (now : Now) (inode : ℕ) (obs : Str) (offset size : ℕ) :
    FsResult Bytes × ObsFsCore :=
  match s.obsClient.readRange obs offset size with
  | (.error _, cl) => (.err .ioError, { s with obsClient := cl })
  | (.ok data, cl) =>
    let (request, readahead) := s.readahead.recordRead now.instant inode offset size
    (.ok data, { s with
      obsClient := cl
      dataCache := s.dataCache.put inode offset data
      readahead := readahead
      spawned := s.spawned ++ (request.map fun r => ⟨obs, r⟩).toList })

def doRead (s : ObsFsCore) (now : Now) (inode fh offset size : ℕ) : FsResult Bytes × ObsFsCore :=
  match s.inodeMgr.getPath inode with
  | none => (.err .notFound, s)
  | some path =>
    let obs := s.obsPath path
    let s :=
      { s with handleMgr := s.handleMgr.update fh (·.updatePosition now.instant offset size) }
    let (prefetched, readahead) := s.readahead.getPrefetched now.instant inode offset
    let s := { s with readahead := readahead }
    match prefetched with
    | some data => (.ok (data.take (min size data.length)), s)
    | none =>
      let (cached, dataCache) := s.dataCache.get inode offset
      let s := { s with dataCache := dataCache }
      match cached with
      | some data =>
        let start := offset % s.dataCache.blockSize
        let stop := min (start + size) data.length
        if start < data.length then (.ok ((data.take stop).drop start), s)
        else s.readRemote now inode obs offset size
      | none => s.readRemote now inode obs offset size

def doWrite (s : ObsFsCore) (now : Now) (inode fh offset : ℕ) (data : Bytes) :
    FsResult ℕ × ObsFsCore :=
  match s.inodeMgr.getPath inode with
  | none => (.err .notFound, s)
  | some path =>
    let obs := s.obsPath path
    let (attr, cache) := s.metadataCache.getAttr now.instant inode
    let fileSize := (attr.map (·.size)).getD 0
    match s.writeBuffer.write s.obsClient now.instant inode obs offset data fileSize with
    | (.loops, wb, cl) =>
      (.loops, { s with metadataCache := cache, writeBuffer := wb, obsClient := cl })
    | (.err _, wb, cl) =>
      (.err .ioError, { s with metadataCache := cache, writeBuffer := wb, obsClient := cl })
    | (.ok written, wb, cl) =>
      let newSize := u64 (offset + written)
      (.ok written, { s with
        writeBuffer := wb
        obsClient := cl
        handleMgr := s.handleMgr.update fh fun st =>
          (st.updatePosition now.instant offset written).markDirty
        metadataCache := cache.updateAttr now.instant inode fun attr =>
          { attr with size := max attr.size newSize, mtime := now.system }
        inodeMgr := s.inodeMgr.updateSize now inode newSize
        dataCache := s.dataCache.invalidateRange inode offset written })

def doCreate (s : ObsFsCore) (now : Now) (parent : ℕ) (name : OsStr) (mode flags : ℕ) :
    FsResult (ℕ × FileAttr × ℕ) × ObsFsCore :=
  match s.inodeMgr.getPath parent with
  | none => (.err .notFound, s)
  | some parentPath =>
    let path := childPath parentPath name
    match s.obsClient.write (s.obsPath path) [] with
    | (.error _, cl) => (.err .ioError, { s with obsClient := cl })
    | (.ok _, cl) =>
      let permission := s.config.permission
      let ((inode, attr), s) := { s with obsClient := cl }.internInode now path false 0
        fun inode => permission.newFile now inode (some mode)
      let (fh, handleMgr) := s.handleMgr.openHandle now.instant inode flags false
      (.ok (inode, attr, fh), { s with
        metadataCache := (s.metadataCache.removeNegative path).invalidateDir parent
        handleMgr := handleMgr })

def doMkdir (s : ObsFsCore) (now : Now) (parent : ℕ) (name : OsStr) (mode : ℕ) :
    FsResult (ℕ × FileAttr) × ObsFsCore :=
  match s.inodeMgr.getPath parent with
  | none => (.err .notFound, s)
  | some parentPath =>
    let path := childPath parentPath name
    match s.obsClient.createDir (s.obsPath path) with
    | (.error _, cl) => (.err .ioError, { s with obsClient := cl })
    | (.ok _, cl) =>
      let permission := s.config.permission
      let (r, s) := { s with obsClient := cl }.internInode now path true 0
        fun inode => permission.newDirectory now inode (some mode)
      (.ok r, { s with
        metadataCache := (s.metadataCache.removeNegative path).invalidateDir parent })

def doUnlink (s : ObsFsCore) (parent : ℕ) (name : OsStr) : FsResult Unit × ObsFsCore :=
  match s.inodeMgr.getPath parent with
  | none => (.err .notFound, s)
  | some parentPath =>
    let path := childPath parentPath name
    match s.obsClient.delete (s.obsPath path) with
    | (.error _, cl) => (.err .ioError, { s with obsClient := cl })
    | (.ok _, cl) =>
      let s := { s with obsClient := cl }
      let s :=
        match s.inodeMgr.getInode path with
        | some inode => { s with
            metadataCache := s.metadataCache.invalidate inode
            dataCache := s.dataCache.invalidate inode
            readahead := s.readahead.invalidate inode
            inodeMgr := s.inodeMgr.remove inode }
        | none => s
      (.ok (), { s with metadataCache := s.metadataCache.invalidateDir parent })

/-- The listed entries that `do_rmdir` counts: all but the directory marker itself. -/
def nonMarkerEntries (listKey : Str) (entries : List ObjectMeta) : List ObjectMeta :=
  entries.filter fun e => e.path ≠ listKey && !(['/', '.'].isSuffixOf e.path)

/-- `ObsFsCore::do_rmdir`; a failure to delete the marker is ignored. -/
def doRmdir (s : ObsFsCore) (parent : ℕ) (name : OsStr) : FsResult Unit × ObsFsCore :=
  match s.inodeMgr.getPath parent with
  | none => (.err .notFound, s)
  | some parentPath =>
    let path := childPath parentPath name
    let listKey := dirKey (s.obsPath path)
    match s.obsClient.list listKey with
    | (.error _, cl) => (.err .ioError, { s with obsClient := cl })
    | (.ok entries, cl) =>
      if nonMarkerEntries listKey entries ≠ [] then (.err .notEmpty, { s with obsClient := cl })
      else
        let (_, cl) := cl.delete listKey
        let s := { s with obsClient := cl }
        let s :=
          match s.inodeMgr.getInode path with
          | some inode => { s with
              metadataCache := s.metadataCache.invalidate inode
              inodeMgr := s.inodeMgr.remove inode }
          | none => s
        (.ok (), { s with metadataCache := s.metadataCache.invalidateDir parent })

def doRename (s : ObsFsCore) (now : Now) (parent : ℕ) (name : OsStr) (newParent : ℕ)
    (newName : OsStr) : FsResult Unit × ObsFsCore :=
  match s.inodeMgr.getPath parent, s.inodeMgr.getPath newParent with
  | some parentPath, some newParentPath =>
    let oldPath := childPath parentPath name
    let newPath := childPath newParentPath newName
    let oldObs := s.obsPath oldPath
    let newObs := s.obsPath newPath
    match s.obsClient.copy oldObs newObs with
    | (.error _, cl) => (.err .ioError, { s with obsClient := cl })
    | (.ok _, cl) =>
      match cl.delete oldObs with
      | (.error _, cl) => (.err .ioError, { s with obsClient := cl })
      | (.ok _, cl) =>
        let inodeMgr := s.inodeMgr.rename now oldPath newPath
        let cache :=
          match inodeMgr.getInode newPath with
          | some inode => s.metadataCache.invalidate inode
          | none => s.metadataCache
        let cache := cache.invalidateDir parent
        let cache := if parent ≠ newParent then cache.invalidateDir newParent else cache
        (.ok (), { s with obsClient := cl, inodeMgr := inodeMgr, metadataCache := cache })
  | _, _ => (.err .notFound, s)

def doOpen (s : ObsFsCore) (now : Now) (inode flags : ℕ) : ℕ × ObsFsCore :=
  let (fh, handleMgr) := s.handleMgr.openHandle now.instant inode flags false
  (fh, { s with handleMgr := handleMgr })

def doOpendir (s : ObsFsCore) (now : Now) (inode flags : ℕ) : ℕ × ObsFsCore :=
  let (fh, handleMgr) := s.handleMgr.openHandle now.instant inode flags true
  (fh, { s with handleMgr := handleMgr })

def doClose (s : ObsFsCore) (fh : ℕ) : ObsFsCore := { s with handleMgr := s.handleMgr.close fh }

def doRelease (s : ObsFsCore) (inode fh : ℕ) : FsResult Unit × ObsFsCore :=
  match s.writeBuffer.release s.obsClient inode with
  | (.ok _, wb, cl) =>
    (.ok (), { s with
      writeBuffer := wb
      obsClient := cl
      handleMgr := s.handleMgr.close fh
      metadataCache := s.metadataCache.invalidateAttr inode })
  | (.err _, wb, cl) => (.err .ioError, { s with writeBuffer := wb, obsClient := cl })
  | (.loops, wb, cl) => (.loops, { s with writeBuffer := wb, obsClient := cl })

/-- What the operations that only act on the write buffer have in common. -/
def onWriteBuffer (s : ObsFsCore) (r : WriteResult Unit × WriteBuffer × ObsClient) :
    FsResult Unit × ObsFsCore :=
  (r.1.mapErr fun _ => .ioError, { s with writeBuffer := r.2.1, obsClient := r.2.2 })

def doFsync (s : ObsFsCore) (inode : ℕ) : FsResult Unit × ObsFsCore :=
  s.onWriteBuffer (s.writeBuffer.syncFlush s.obsClient inode)

def doFlush (s : ObsFsCore) (inode : ℕ) : FsResult Unit × ObsFsCore :=
  s.onWriteBuffer (s.writeBuffer.flush s.obsClient inode)

def flushAll (s : ObsFsCore) (order : IterOrder ℕ) : FsResult Unit × ObsFsCore :=
  s.onWriteBuffer (s.writeBuffer.flushAll s.obsClient order)

/-- One round of `flush_task`: `WriteBuffer::flush_expired`, whose errors are only logged. -/
def flushExpired (s : ObsFsCore) (now : Now) (order : IterOrder ℕ) : FsResult Unit × ObsFsCore :=
  s.onWriteBuffer (s.writeBuffer.flushExpired s.obsClient now.instant order)

def doTruncate (s : ObsFsCore) (now : Now) (inode size : ℕ) : FsResult Unit × ObsFsCore :=
  match s.inodeMgr.getPath inode with
  | none => (.err .notFound, s)
  | some path =>
    match s.writeBuffer.truncate s.obsClient now.instant inode (s.obsPath path) size with
    | (.ok _, wb, cl) =>
      (.ok (), { s with
        writeBuffer := wb
        obsClient := cl
        dataCache := s.dataCache.invalidate inode
        readahead := s.readahead.invalidate inode })
    | (.err _, wb, cl) => (.err .ioError, { s with writeBuffer := wb, obsClient := cl })
    | (.loops, wb, cl) => (.loops, { s with writeBuffer := wb, obsClient := cl })

def doAccess (s : ObsFsCore) (inode : ℕ) : FsResult Unit :=
  if (s.inodeMgr.getEntry inode).isSome then .ok () else .err .notFound

def prefetchTask (s : ObsFsCore) (now : Now) (n : ℕ) (permit : Bool) : ObsFsCore :=
  match s.spawned[n]? with
  | none => s
  | some job =>
    let s := { s with spawned := s.spawned.eraseIdx n }
    if !permit then s
    else
      match s.obsClient.readRange job.path job.request.offset job.request.size with
      | (.ok data, cl) => { s with
          obsClient := cl
          readahead :=
            s.readahead.storePrefetched now.instant job.request.inode job.request.offset data }
      | (.error _, cl) => { s with obsClient := cl }

end ObsFsCore

end ObsFuse
