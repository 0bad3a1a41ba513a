import ObsFuse.Fs.Platform
import ObsFuse.Consistency.PathSpellings
import ObsFuse.Lib.Paging

/-! # The WinFSP requests (src/fs/winfsp_impl.rs)

The adapter turns names into inodes and core errors into NTSTATUS values. Names are the texts
that `to_string_lossy` gives for them. Each operation of a request reads the clock anew; where a
request is made of many, `clock` has their readings. The core is the one of Unix builds: on
Windows it treats a backslash in a path as a slash, which `windowsPath_eq` below says does not
matter for paths without one. -/

namespace ObsFuse
open Lib

/-- The NTSTATUS values that `fs_err_to_status` and the handlers answer. -/
inductive WinStatus where
  | objectNameNotFound
  | directoryNotEmpty
  | accessDenied
  | fileIsADirectory
  | notADirectory
  | invalidParameter
  | unsuccessful
  deriving DecidableEq, Repr

namespace FsError

def EACCES : ℕ := 13
def ENOTDIR : ℕ := 20
def EISDIR : ℕ := 21
def EINVAL : ℕ := 22

end FsError

/-- `FileAttr::default()` on Windows. -/
def FileAttr.default (now : SystemTime) : FileAttr where
  ino := 0
  size := 0
  blocks := 0
  atime := now
  mtime := now
  ctime := now
  crtime := now
  kind := .regularFile
  perm := 0o644
  nlink := 1
  uid := 0
  gid := 0
  rdev := 0
  blksize := 4096
  flags := 0

/-- `InodeManager::normalize_path` on Windows. -/
def windowsPath (path : Str) : Str :=
  normalizePath ((normalizePath path).map fun c => if c = '\\' then '/' else c)

/-- `WinFspFileContext`. -/
structure FileContext where
  inode : ℕ
  fh : ℕ
  isDir : Bool
  deriving DecidableEq, Repr

structure FileInfo where
  fileAttributes : ℕ
  reparseTag : ℕ
  allocationSize : ℕ
  fileSize : ℕ
  creationTime : ℕ
  lastAccessTime : ℕ
  lastWriteTime : ℕ
  changeTime : ℕ
  indexNumber : ℕ
  hardLinks : ℕ
  eaSize : ℕ
  deriving DecidableEq, Repr

structure DirInfo where
  fileName : Str
  fileInfo : FileInfo
  deriving DecidableEq, Repr

abbrev WinResult (α : Type) := Outcome WinStatus α

namespace WinFspFs

def FILE_ATTRIBUTE_DIRECTORY : ℕ := 0x10
def FILE_ATTRIBUTE_NORMAL : ℕ := 0x80

def fsErrToStatus (err : FsError) : WinStatus :=
  if err.errno = FsError.ENOENT then .objectNameNotFound
  else if err.errno = FsError.ENOTEMPTY then .directoryNotEmpty
  else if err.errno = FsError.EACCES then .accessDenied
  else if err.errno = FsError.EISDIR then .fileIsADirectory
  else if err.errno = FsError.ENOTDIR then .notADirectory
  else if err.errno = FsError.EINVAL then .invalidParameter
  else .unsuccessful

def fileAttributes (attr : FileAttr) : ℕ :=
  match attr.kind with
  | .directory => FILE_ATTRIBUTE_DIRECTORY
  | _ => FILE_ATTRIBUTE_NORMAL

def buildFileInfo (attr : FileAttr) : FileInfo where
  fileAttributes := fileAttributes attr
  reparseTag := 0
  allocationSize := u64 (attr.blocks * 512)
  fileSize := attr.size
  creationTime := (Timestamp.ofSystemTime attr.crtime).toFiletime
  lastAccessTime := (Timestamp.ofSystemTime attr.atime).toFiletime
  lastWriteTime := (Timestamp.ofSystemTime attr.mtime).toFiletime
  changeTime := (Timestamp.ofSystemTime attr.ctime).toFiletime
  indexNumber := attr.ino
  hardLinks := 0
  eaSize := 0

/-- `WinFspFs::normalize_path`. -/
def normalizeName (path : Str) : Str :=
  (path.dropWhile (· = '\\')).map fun c => if c = '\\' then '/' else c

/-- The bytes of a name that the adapter made from a text. -/
def osStr (name : Str) : OsStr := name.flatMap String.utf8EncodeChar

/-- The text before the last slash and the text after it (`rfind('/')`). -/
def splitLast (path : Str) : Str × Str :=
  ((path.rdropWhile (· ≠ '/')).dropLast, path.rtakeWhile (· ≠ '/'))

/-- One lookup for each part of a path; the first error ends the walk. -/
def walk (clock : ℕ → Now) : ℕ → List Str → ObsFsCore → FsResult ℕ × ObsFsCore
  | inode, [], core => (.ok inode, core)
  | inode, part :: parts, core =>
    match core.doLookup (clock 0) inode (osStr part) with
    | (.ok found, core) => walk (fun n => clock (n + 1)) found.1 parts core
    | (.err e, core) => (.err e, core)
    | (.loops, core) => (.loops, core)

def inodeOf (clock : ℕ → Now) (path : Str) (core : ObsFsCore) : FsResult ℕ × ObsFsCore :=
  if path = [] then (.ok rootInode, core) else walk clock rootInode (components path) core

/-- What most handlers end with: the attributes of the inode, as file information. -/
def fileInfo (core : ObsFsCore) (now : Now) (inode : ℕ) : WinResult FileInfo × ObsFsCore :=
  let (r, core) := core.doGetattr now inode
  ((r.map buildFileInfo).mapErr fsErrToStatus, core)

/-- Errors of the lookups all become `STATUS_OBJECT_NAME_NOT_FOUND` here. -/
def getSecurityByName (core : ObsFsCore) (clock : ℕ → Now) (now : Now) (fileName : Str) :
    WinResult (ℕ × ℕ) × ObsFsCore :=
  match inodeOf clock (normalizeName fileName) core with
  | (.ok inode, core) =>
    let (r, core) := core.doGetattr now inode
    ((r.map fun attr => (fileAttributes attr, 0)).mapErr fsErrToStatus, core)
  | (.err _, core) => (.err .objectNameNotFound, core)
  | (.loops, core) => (.loops, core)

def accessFlags (grantedAccess : ℕ) : ℕ :=
  if grantedAccess &&& 0x80000000 ≠ 0 then 0
  else if grantedAccess &&& 0x40000000 ≠ 0 then 1
  else 2

/-- `do_opendir` or `do_open`. -/
def openHandle (core : ObsFsCore) (now : Now) (inode flags : ℕ) (isDir : Bool) : ℕ × ObsFsCore :=
  if isDir then core.doOpendir now inode flags else core.doOpen now inode flags

def openFile (core : ObsFsCore) (clock : ℕ → Now) (now now' : Now) (fileName : Str)
    (grantedAccess : ℕ) : WinResult (FileContext × FileInfo) × ObsFsCore :=
  match inodeOf clock (normalizeName fileName) core with
  | (.ok inode, core) =>
    match core.doGetattr now inode with
    | (.ok attr, core) =>
      let isDir : Bool := attr.kind = .directory
      let (fh, core) := openHandle core now' inode (accessFlags grantedAccess) isDir
      (.ok (⟨inode, fh, isDir⟩, buildFileInfo attr), core)
    | (.err e, core) => (.err (fsErrToStatus e), core)
    | (.loops, core) => (.loops, core)
  | (.err e, core) => (.err (fsErrToStatus e), core)
  | (.loops, core) => (.loops, core)

/-- The result of a release is not looked at. -/
def close (core : ObsFsCore) (context : FileContext) : ObsFsCore :=
  if context.isDir then core.doClose context.fh
  else (core.doRelease context.inode context.fh).2

/-- What is copied into a buffer of `len` bytes. -/
def read (core : ObsFsCore) (now : Now) (context : FileContext) (len offset : ℕ) :
    WinResult Bytes × ObsFsCore :=
  let (r, core) := core.doRead now context.inode context.fh offset (u32 len)
  ((r.map fun data => data.take (min data.length len)).mapErr fsErrToStatus, core)

def write (core : ObsFsCore) (now now' : Now) (context : FileContext) (buffer : Bytes)
    (offset : ℕ) : WinResult (ℕ × FileInfo) × ObsFsCore :=
  match core.doWrite now context.inode context.fh offset buffer with
  | (.ok written, core) =>
    let (r, core) := fileInfo core now' context.inode
    (r.map fun info => (u32 written, info), core)
  | (.err e, core) => (.err (fsErrToStatus e), core)
  | (.loops, core) => (.loops, core)

def flush (core : ObsFsCore) (now : Now) (context : FileContext) :
    WinResult FileInfo × ObsFsCore :=
  match core.doFlush context.inode with
  | (.ok _, core) => fileInfo core now context.inode
  | (.err e, core) => (.err (fsErrToStatus e), core)
  | (.loops, core) => (.loops, core)

/-- The times of `set_basic_info`; zero leaves a time alone. -/
structure BasicTimes where
  creationTime : ℕ
  lastAccessTime : ℕ
  lastWriteTime : ℕ
  changeTime : ℕ
  deriving DecidableEq, Repr

def setTime (ft : ℕ) (time : SystemTime) : Option SystemTime :=
  if ft ≠ 0 then (Timestamp.fromFiletime ft).toSystemTime else some time

def BasicTimes.apply (times : BasicTimes) (attr : FileAttr) : Option FileAttr := do
  let crtime ← setTime times.creationTime attr.crtime
  let atime ← setTime times.lastAccessTime attr.atime
  let mtime ← setTime times.lastWriteTime attr.mtime
  let ctime ← setTime times.changeTime attr.ctime
  return { attr with crtime, atime, mtime, ctime }

/-- `set_basic_info` changes cached attributes only; without any, it answers the present ones.
A time that panics leaves it without an answer. -/
def setBasicInfo (core : ObsFsCore) (now now' : Now) (context : FileContext)
    (times : BasicTimes) : Option (WinResult FileInfo) × ObsFsCore :=
  let (cached, cache) := core.metadataCache.getAttr now.instant context.inode
  match cached with
  | some attr =>
    match times.apply attr with
    | some attr =>
      (some (.ok (buildFileInfo attr)),
        { core with metadataCache := cache.putAttr now'.instant context.inode attr })
    | none => (none, { core with metadataCache := cache })
  | none =>
    let (r, core) := fileInfo { core with metadataCache := cache } now' context.inode
    (some r, core)

def setFileSize (core : ObsFsCore) (now now' : Now) (context : FileContext) (newSize : ℕ)
    (setAllocationSize : Bool) : WinResult FileInfo × ObsFsCore :=
  if setAllocationSize then fileInfo core now' context.inode
  else
    match core.doTruncate now context.inode newSize with
    | (.ok _, core) => fileInfo core now' context.inode
    | (.err e, core) => (.err (fsErrToStatus e), core)
    | (.loops, core) => (.loops, core)

def canDelete (core : ObsFsCore) (now : Now) (context : FileContext) :
    WinResult Unit × ObsFsCore :=
  if context.isDir then
    match core.doReaddir now context.inode 0 with
    | (.ok entries, core) =>
      if entries.filter (fun e => e.name ≠ ['.'] ∧ e.name ≠ ['.', '.']) ≠ [] then
        (.err .directoryNotEmpty, core)
      else (.ok (), core)
    | (.err e, core) => (.err (fsErrToStatus e), core)
    | (.loops, core) => (.loops, core)
  else (.ok (), core)

/-- The inode of a parent path, which must be known already. -/
def knownParent (core : ObsFsCore) (path : Str) : Option ℕ :=
  if path = [] then some rootInode else core.inodeMgr.getInode path

def rename (core : ObsFsCore) (now : Now) (context : FileContext) (newFileName : Str) :
    WinResult Unit × ObsFsCore :=
  match core.inodeMgr.getPath context.inode with
  | none => (.err (fsErrToStatus .notFound), core)
  | some oldPath =>
    let (oldParentPath, oldName) := splitLast oldPath
    let (newParentPath, newName) := splitLast (normalizeName newFileName)
    match knownParent core oldParentPath with
    | none => (.err .objectNameNotFound, core)
    | some oldParent =>
      match knownParent core newParentPath with
      | none => (.err .objectNameNotFound, core)
      | some newParent =>
        let (r, core) := core.doRename now oldParent (osStr oldName) newParent (osStr newName)
        (r.mapErr fsErrToStatus, core)

/-- The loop of `read_directory` for a host whose buffer takes `fits` entries: attributes are
asked for each entry past the marker, up to the first that the buffer does not take. -/
def addDirInfos (clock : ℕ → Now) : ℕ → List DirEntry → ObsFsCore → List DirInfo × ObsFsCore
  | _, [], core => ([], core)
  | fits, entry :: entries, core =>
    let (r, core) := core.doGetattr (clock 0) entry.inode
    let attr :=
      match r with
      | .ok attr => attr
      | _ => FileAttr.default (clock 0).system
    match fits with
    | 0 => ([], core)
    | fits + 1 =>
      let (infos, core) := addDirInfos (fun n => clock (n + 1)) fits entries core
      (⟨entry.name, buildFileInfo attr⟩ :: infos, core)

def readDirectory (core : ObsFsCore) (now : Now) (clock : ℕ → Now) (context : FileContext)
    (marker : Option Str) (fits : ℕ) : WinResult (List DirInfo) × ObsFsCore :=
  match core.doReaddir now context.inode 0 with
  | (.ok entries, core) =>
    let (infos, core) := addDirInfos clock fits (afterMarker DirEntry.name entries marker) core
    (.ok infos, core)
  | (.err e, core) => (.err (fsErrToStatus e), core)
  | (.loops, core) => (.loops, core)

/-- `cleanup` of a file that is marked for deletion; failures are only logged. -/
def cleanup (core : ObsFsCore) (context : FileContext) (flags : ℕ) : ObsFsCore :=
  if flags &&& 0x01 ≠ 0 then
    match core.inodeMgr.getPath context.inode with
    | none => core
    | some path =>
      let (parentPath, name) := splitLast path
      match knownParent core parentPath with
      | none => core
      | some parent =>
        if context.isDir then (core.doRmdir parent (osStr name)).2
        else (core.doUnlink parent (osStr name)).2
  else core

def create (core : ObsFsCore) (clock : ℕ → Now) (now now' : Now) (fileName : Str)
    (createOptions grantedAccess fileAttributes : ℕ) :
    WinResult (FileContext × FileInfo) × ObsFsCore :=
  let isDir : Bool :=
    fileAttributes &&& FILE_ATTRIBUTE_DIRECTORY ≠ 0 ∨ createOptions &&& 0x00000001 ≠ 0
  let (parentPath, name) := splitLast (normalizeName fileName)
  match inodeOf clock parentPath core with
  | (.ok parent, core) =>
    let flags := accessFlags grantedAccess
    if isDir then
      match core.doMkdir now parent (osStr name) 0o755 with
      | (.ok (inode, attr), core) =>
        let (fh, core) := core.doOpendir now' inode flags
        (.ok (⟨inode, fh, isDir⟩, buildFileInfo attr), core)
      | (.err e, core) => (.err (fsErrToStatus e), core)
      | (.loops, core) => (.loops, core)
    else
      match core.doCreate now parent (osStr name) 0o644 flags with
      | (.ok (inode, attr, fh), core) => (.ok (⟨inode, fh, isDir⟩, buildFileInfo attr), core)
      | (.err e, core) => (.err (fsErrToStatus e), core)
      | (.loops, core) => (.loops, core)
  | (.err e, core) => (.err (fsErrToStatus e), core)
  | (.loops, core) => (.loops, core)

def overwrite (core : ObsFsCore) (now now' : Now) (context : FileContext) :
    WinResult FileInfo × ObsFsCore :=
  match core.doTruncate now context.inode 0 with
  | (.ok _, core) => fileInfo core now' context.inode
  | (.err e, core) => (.err (fsErrToStatus e), core)
  | (.loops, core) => (.loops, core)

end WinFspFs

end ObsFuse
