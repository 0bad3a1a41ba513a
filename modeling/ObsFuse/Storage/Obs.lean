import ObsFuse.Basic

/-! # The OBS client (src/storage/obs.rs)

The bucket is a finite map from keys to contents. Writes and deletes act on it as the
documented object operations: a write replaces the whole object, a delete of an absent
key succeeds. What the storage library answers to `stat` and `list`, which range of an
object it refuses to read and which copy it refuses to make is a parameter (`Backend`).
Any request can be made to fail: `faults n` is the error of the n-th request, and a
failed request changes nothing in the bucket. Metrics are left out. -/

namespace ObsFuse
open Lib

inductive ErrorKind where
  | notFound
  | permissionDenied
  | alreadyExists
  | notADirectory
  | isADirectory
  | isSameFile
  | rateLimited
  | rangeNotSatisfied
  | unsupported
  | unexpected
  deriving DecidableEq, Repr

abbrev Bucket := Table Str Bytes

structure Metadata where
  contentLength : ℕ
  lastModified : Option SystemTime
  isDir : Bool
  deriving DecidableEq, Repr

/-- The answers of the storage library to `stat` and to a listing, and what it refuses: to
read a range of an object that has the content, to copy from one key to another. A range
that is read past the end of the object ends there. -/
structure Backend where
  stat : Bucket → Str → Except ErrorKind Metadata
  list : Bucket → Str → Except ErrorKind (List Str)
  refusesRead : Bytes → ℕ → ℕ → Option ErrorKind
  refusesCopy : Str → Str → Option ErrorKind

/-- A library that reads every range inside an object. -/
def Backend.ReadsInside (b : Backend) : Prop :=
  ∀ content offset size, offset + size ≤ content.length → b.refusesRead content offset size = none

/-- A library that clips a range to the object. -/
def Backend.Clips (b : Backend) : Prop :=
  ∀ content offset size, b.refusesRead content offset size = none

inductive Request where
  | stat (path : Str)
  | read (path : Str) (offset size : ℕ)
  | write (path : Str) (data : Bytes)
  | delete (path : Str)
  | list (path : Str)
  | createDir (path : Str)
  | copy (source target : Str)
  deriving DecidableEq, Repr

structure ObjectMeta where
  path : Str
  size : ℕ
  lastModified : Option SystemTime
  isDir : Bool
  deriving DecidableEq, Repr

def ObjectMeta.fromOpendal (path : Str) (info : Metadata) : ObjectMeta where
  path := path
  size := info.contentLength
  lastModified := info.lastModified
  isDir := info.isDir

/-- The client, with the bucket it talks to and the requests it has made so far. -/
structure ObsClient where
  objects : Bucket
  log : List Request
  faults : ℕ → Option ErrorKind
  backend : Backend

namespace ObsClient

def fault (c : ObsClient) : Option ErrorKind := c.faults c.log.length

def sent (c : ObsClient) (r : Request) : ObsClient := { c with log := c.log ++ [r] }

@[simp] theorem sent_objects (c : ObsClient) (r : Request) : (c.sent r).objects = c.objects := rfl
@[simp] theorem sent_faults (c : ObsClient) (r : Request) : (c.sent r).faults = c.faults := rfl
@[simp] theorem sent_backend (c : ObsClient) (r : Request) : (c.sent r).backend = c.backend := rfl
@[simp] theorem sent_log (c : ObsClient) (r : Request) : (c.sent r).log = c.log ++ [r] := rfl

def stat (c : ObsClient) (path : Str) : Except ErrorKind ObjectMeta × ObsClient :=
  match c.fault with
  | some e => (.error e, c.sent (.stat path))
  | none =>
    match c.backend.stat c.objects path with
    | .error e => (.error e, c.sent (.stat path))
    | .ok info => (.ok (.fromOpendal path info), c.sent (.stat path))

def readRange (c : ObsClient) (path : Str) (offset size : ℕ) : Except ErrorKind Bytes × ObsClient :=
  match c.fault with
  | some e => (.error e, c.sent (.read path offset size))
  | none =>
    match c.objects.lookup path with
    | none => (.error .notFound, c.sent (.read path offset size))
    | some data =>
      match c.backend.refusesRead data offset size with
      | some e => (.error e, c.sent (.read path offset size))
      | none => (.ok ((data.drop offset).take size), c.sent (.read path offset size))

def write (c : ObsClient) (path : Str) (data : Bytes) : Except ErrorKind Unit × ObsClient :=
  match c.fault with
  | some e => (.error e, c.sent (.write path data))
  | none =>
    (.ok (), { c.sent (.write path data) with objects := c.objects.insert path data })

def delete (c : ObsClient) (path : Str) : Except ErrorKind Unit × ObsClient :=
  match c.fault with
  | some e => (.error e, c.sent (.delete path))
  | none => (.ok (), { c.sent (.delete path) with objects := c.objects.erase path })

/-- The `stat` of each listed entry, in order; the first failure ends the listing. -/
def statAll (c : ObsClient) : List Str → Except ErrorKind (List ObjectMeta) × ObsClient
  | [] => (.ok [], c)
  | entry :: entries =>
    match c.stat entry with
    | (.error e, c) => (.error e, c)
    | (.ok info, c) =>
      match c.statAll entries with
      | (.error e, c) => (.error e, c)
      | (.ok infos, c) => (.ok (info :: infos), c)

def list (c : ObsClient) (path : Str) : Except ErrorKind (List ObjectMeta) × ObsClient :=
  match c.fault with
  | some e => (.error e, c.sent (.list path))
  | none =>
    match c.backend.list c.objects path with
    | .error e => (.error e, c.sent (.list path))
    | .ok entries => (c.sent (.list path)).statAll entries

/-- `ObsClient::list_dir`: as `list`, on the prefix with a slash at its end. -/
def listDir (c : ObsClient) (path : Str) : Except ErrorKind (List ObjectMeta) × ObsClient :=
  let dirPath := if path = [] ∨ path.getLast? = some '/' then path else path ++ ['/']
  c.list dirPath

/-- `ObsClient::create_dir`: an empty object whose key ends with a slash. -/
def createDir (c : ObsClient) (path : Str) : Except ErrorKind Unit × ObsClient :=
  let dirPath := if path.getLast? = some '/' then path else path ++ ['/']
  match c.fault with
  | some e => (.error e, c.sent (.createDir dirPath))
  | none =>
    (.ok (), { c.sent (.createDir dirPath) with objects := c.objects.insert dirPath [] })

def copy (c : ObsClient) (source target : Str) : Except ErrorKind Unit × ObsClient :=
  match c.fault with
  | some e => (.error e, c.sent (.copy source target))
  | none =>
    match c.backend.refusesCopy source target with
    | some e => (.error e, c.sent (.copy source target))
    | none =>
      match c.objects.lookup source with
      | none => (.error .notFound, c.sent (.copy source target))
      | some data =>
        (.ok (), { c.sent (.copy source target) with objects := c.objects.insert target data })

def Reliable (c : ObsClient) : Prop := ∀ n, c.faults n = none

theorem Reliable.fault {c : ObsClient} (h : c.Reliable) : c.fault = none := h _

end ObsClient

/-- A storage library that answers from the keys of the bucket alone: `stat` finds
exactly the existing keys, a listing returns the keys strictly below the path. It reads
ranges inside an object only, and copies no object to its own key. -/
def Backend.plain : Backend where
  stat objects path :=
    match objects.lookup path with
    | some data => .ok ⟨data.length, none, path.getLast? = some '/'⟩
    | none => .error .notFound
  list objects path :=
    .ok (objects.keys.filter fun k => path.isPrefixOf k)
  refusesRead content offset size :=
    if offset + size ≤ content.length then none
    else if offset < content.length then some .unexpected
    else some .rangeNotSatisfied
  refusesCopy source target := if source = target then some .isSameFile else none

def ObsClient.fresh : ObsClient := ⟨∅, [], fun _ => none, .plain⟩

end ObsFuse
