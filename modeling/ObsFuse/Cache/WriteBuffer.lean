import ObsFuse.Storage.Obs
import ObsFuse.Storage.Multipart

/-! # The write buffer (src/cache/write_buffer.rs)

Each function takes the write buffer and the client it shares with the rest of the
program and returns both. The part of `write` under the per-file mutex is
`writeLocked`, so that it can also be taken as one step of a concurrent run. -/

namespace ObsFuse
open Lib

structure WriteBufferConfig where
  bufferSize : ℕ
  flushInterval : ℕ
  multipartThreshold : ℕ
  partSize : ℕ
  bufferSize_lt : bufferSize < 2 ^ 64
  multipartThreshold_lt : multipartThreshold < 2 ^ 64
  partSize_lt : partSize < 2 ^ 64

def WriteBufferConfig.default : WriteBufferConfig where
  bufferSize := 64 * 1024 * 1024
  flushInterval := 30 * 10 ^ 9
  multipartThreshold := 100 * 1024 * 1024
  partSize := 8 * 1024 * 1024
  bufferSize_lt := by decide
  multipartThreshold_lt := by decide
  partSize_lt := by decide

structure FileWriteBuffer where
  inode : ℕ
  path : Str
  data : Bytes
  dirty : Bool
  lastWrite : Instant
  size : ℕ
  originalSize : ℕ
  multipart : Option MultipartUploadState
  sequentialWrite : Bool
  nextOffset : ℕ
  deriving DecidableEq, Repr

namespace FileWriteBuffer

def new (now : Instant) (inode : ℕ) (path : Str) (originalSize : ℕ) : FileWriteBuffer where
  inode := inode
  path := path
  data := []
  dirty := false
  lastWrite := now
  size := originalSize
  originalSize := originalSize
  multipart := none
  sequentialWrite := true
  nextOffset := 0

/-- The bookkeeping at the start of `WriteBuffer::write`. -/
def placed (buf : FileWriteBuffer) (offset len : ℕ) : FileWriteBuffer :=
  { buf with
    sequentialWrite := if offset ≠ buf.nextOffset then false else buf.sequentialWrite
    nextOffset := u64 (offset + len) }

/-- The append of `WriteBuffer::write`. -/
def extended (buf : FileWriteBuffer) (now : Instant) (offset : ℕ) (data : Bytes) :
    FileWriteBuffer :=
  { buf with
    data := buf.data ++ data
    dirty := true
    lastWrite := now
    size := max buf.size (u64 (offset + data.length)) }

def needsFlush (buf : FileWriteBuffer) (threshold : ℕ) : Bool := threshold ≤ buf.data.length

def needsTimeFlush (buf : FileWriteBuffer) (now : Instant) (interval : ℕ) : Bool :=
  buf.dirty && interval < now - buf.lastWrite

end FileWriteBuffer

structure WriteBuffer where
  buffers : Table ℕ FileWriteBuffer
  config : WriteBufferConfig

abbrev WriteResult (α : Type) := Outcome ErrorKind α

namespace WriteBufferConfig

def uploader (cfg : WriteBufferConfig) : MultipartUploader := ⟨⟨cfg.partSize, 10000⟩⟩

def flushBuffer (cfg : WriteBufferConfig) (buf : FileWriteBuffer) (cl : ObsClient) :
    WriteResult Unit × FileWriteBuffer × ObsClient :=
  if !buf.dirty || buf.data.isEmpty then (.ok (), buf, cl)
  else
    match buf.multipart with
    | some mpState =>
      -- the early return above leaves `data` nonempty, so it is always uploaded
      match cfg.uploader.write mpState buf.data with
      | none => (.loops, { buf with data := [] }, cl)
      | some mpState =>
        -- the completed state is dropped: `complete` issues no request and cannot fail
        let _ := cfg.uploader.complete mpState
        (.ok (),
          { buf with data := [], multipart := none, dirty := false, originalSize := buf.size }, cl)
    | none =>
      -- the data leaves the buffer before the fallible write
      match cl.write buf.path buf.data with
      | (.error e, cl) => (.err e, { buf with data := [] }, cl)
      | (.ok _, cl) =>
        (.ok (), { buf with data := [], dirty := false, originalSize := buf.size }, cl)

/-- The part loop of `WriteBuffer::write`, for at most `k` rounds. -/
def partLoop (cfg : WriteBufferConfig) : ℕ → FileWriteBuffer → Option FileWriteBuffer
  | 0, _ => none
  | k + 1, buf =>
    if cfg.partSize ≤ buf.data.length then
      let partData := buf.data.take cfg.partSize
      let buf := { buf with data := buf.data.drop cfg.partSize }
      match buf.multipart with
      | some mpState =>
        match cfg.uploader.write mpState partData with
        | none => none
        | some mpState => partLoop cfg k { buf with multipart := some mpState }
      | none => partLoop cfg k buf
    else some buf

def startMultipart (cfg : WriteBufferConfig) (buf : FileWriteBuffer) (path : Str) :
    FileWriteBuffer :=
  if cfg.multipartThreshold ≤ buf.data.length ∧ buf.multipart.isNone then
    { buf with multipart := some (.new path) }
  else buf

def flushParts (cfg : WriteBufferConfig) (buf : FileWriteBuffer) : Option FileWriteBuffer :=
  if buf.multipart.isSome then cfg.partLoop (buf.data.length + 1) buf else some buf

/-- `WriteBuffer::write` from the point where the file's mutex is held. -/
def writeLocked (cfg : WriteBufferConfig) (buf : FileWriteBuffer) (cl : ObsClient)
    (now : Instant) (path : Str) (offset : ℕ) (data : Bytes) :
    WriteResult ℕ × FileWriteBuffer × ObsClient :=
  let buf := buf.placed offset data.length
  if !buf.sequentialWrite && 0 < buf.originalSize then
    match cfg.flushBuffer buf cl with
    | (.loops, buf, cl) => (.loops, buf, cl)
    | (.err e, buf, cl) => (.err e, buf, cl)
    | (.ok _, buf, cl) =>
      match cl.write path data with
      | (.error e, cl) => (.err e, buf, cl)
      | (.ok _, cl) =>
        (.ok data.length, { buf with size := max buf.size (u64 (offset + data.length)) }, cl)
  else
    let buf := cfg.startMultipart (buf.extended now offset data) path
    match cfg.flushParts buf with
    | none => (.loops, buf, cl)
    | some buf =>
      if buf.needsFlush cfg.bufferSize && buf.multipart.isNone then
        match cfg.flushBuffer buf cl with
        | (.loops, buf, cl) => (.loops, buf, cl)
        | (.err e, buf, cl) => (.err e, buf, cl)
        | (.ok _, buf, cl) => (.ok data.length, buf, cl)
      else (.ok data.length, buf, cl)

end WriteBufferConfig

namespace WriteBuffer

def new (config : WriteBufferConfig) : WriteBuffer := ⟨∅, config⟩

def bufferFor (wb : WriteBuffer) (now : Instant) (inode : ℕ) (path : Str) (size : ℕ) :
    FileWriteBuffer :=
  (wb.buffers.lookup inode).getD (.new now inode path size)

def getOrCreate (wb : WriteBuffer) (now : Instant) (inode : ℕ) (path : Str) (size : ℕ) :
    FileWriteBuffer × WriteBuffer :=
  match wb.buffers.lookup inode with
  | some buf => (buf, wb)
  | none =>
    let buf := FileWriteBuffer.new now inode path size
    (buf, { wb with buffers := wb.buffers.insert inode buf })

def write (wb : WriteBuffer) (cl : ObsClient) (now : Instant) (inode : ℕ) (path : Str)
    (offset : ℕ) (data : Bytes) (fileSize : ℕ) : WriteResult ℕ × WriteBuffer × ObsClient :=
  let (buf, wb) := wb.getOrCreate now inode path fileSize
  let (r, buf, cl) := wb.config.writeLocked buf cl now path offset data
  (r, { wb with buffers := wb.buffers.insert inode buf }, cl)

def flush (wb : WriteBuffer) (cl : ObsClient) (inode : ℕ) :
    WriteResult Unit × WriteBuffer × ObsClient :=
  match wb.buffers.lookup inode with
  | some buf =>
    let (r, buf, cl) := wb.config.flushBuffer buf cl
    (r, { wb with buffers := wb.buffers.insert inode buf }, cl)
  | none => (.ok (), wb, cl)

def syncFlush (wb : WriteBuffer) (cl : ObsClient) (inode : ℕ) :
    WriteResult Unit × WriteBuffer × ObsClient :=
  wb.flush cl inode

/-- `WriteBuffer::release`: the map entry is removed before the flush. -/
def release (wb : WriteBuffer) (cl : ObsClient) (inode : ℕ) :
    WriteResult Unit × WriteBuffer × ObsClient :=
  match wb.buffers.lookup inode with
  | some buf =>
    let wb := { wb with buffers := wb.buffers.erase inode }
    let (r, _, cl) := wb.config.flushBuffer buf cl
    (r, wb, cl)
  | none => (.ok (), wb, cl)

def truncate (wb : WriteBuffer) (cl : ObsClient) (now : Instant) (inode : ℕ) (path : Str)
    (size : ℕ) : WriteResult Unit × WriteBuffer × ObsClient :=
  let (buf, wb) := wb.getOrCreate now inode path size
  -- `abort` cannot fail, and the aborted state is dropped
  let buf := { buf with multipart := none }
  let buf := { buf with data := [], size := size, dirty := true }
  if size = 0 then
    match cl.write path [] with
    | (.error e, cl) => (.err e, { wb with buffers := wb.buffers.insert inode buf }, cl)
    | (.ok _, cl) =>
      (.ok (), { wb with buffers := wb.buffers.insert inode { buf with dirty := false } }, cl)
  else (.ok (), { wb with buffers := wb.buffers.insert inode buf }, cl)

/-- The loop shared by `flush_all` and `flush_expired`: the buffers of `inodes`, in this
order, are flushed where `p` holds; the first failure ends the loop. -/
def flushEach (wb : WriteBuffer) (cl : ObsClient) (p : FileWriteBuffer → Bool) :
    List ℕ → WriteResult Unit × WriteBuffer × ObsClient
  | [] => (.ok (), wb, cl)
  | inode :: inodes =>
    match wb.buffers.lookup inode with
    | none => flushEach wb cl p inodes
    | some buf =>
      if p buf then
        match wb.config.flushBuffer buf cl with
        | (.loops, buf, cl) => (.loops, { wb with buffers := wb.buffers.insert inode buf }, cl)
        | (.err e, buf, cl) => (.err e, { wb with buffers := wb.buffers.insert inode buf }, cl)
        | (.ok _, buf, cl) =>
          flushEach { wb with buffers := wb.buffers.insert inode buf } cl p inodes
      else flushEach wb cl p inodes

def flushAll (wb : WriteBuffer) (cl : ObsClient) (order : IterOrder ℕ) :
    WriteResult Unit × WriteBuffer × ObsClient :=
  wb.flushEach cl (·.dirty) (order.visit wb.buffers.keys)

def flushExpired (wb : WriteBuffer) (cl : ObsClient) (now : Instant) (order : IterOrder ℕ) :
    WriteResult Unit × WriteBuffer × ObsClient :=
  wb.flushEach cl (·.needsTimeFlush now wb.config.flushInterval) (order.visit wb.buffers.keys)

end WriteBuffer

end ObsFuse
