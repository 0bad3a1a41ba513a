import ObsFuse.Cache.FileView
import ObsFuse.Lib.Runs

/-! # Sessions on a new file

A new empty file is written from its start without gaps; calls that flush may come between
the writes. A session ends with the release that flushes what is left. -/

namespace ObsFuse
open Lib

/-- A call between the creation of the file and the final release. Writes go where the
last one ended. -/
inductive SessionOp where
  | write (now : Instant) (data : Bytes) (fileSize : ℕ)
  | flush
  | syncFlush
  | flushExpired (now : Instant) (order : IterOrder ℕ)
  | release

def SessionOp.data : SessionOp → Bytes
  | .write _ data _ => data
  | _ => []

def writtenBytes (ops : List SessionOp) : Bytes := (ops.map (·.data)).flatten

structure Session where
  writeBuffer : WriteBuffer
  client : ObsClient
  position : ℕ

namespace Session

def set (st : Session) (r : WriteBuffer × ObsClient) : Session := ⟨r.1, r.2, st.position⟩

def step (inode : ℕ) (key : Str) (st : Session) : SessionOp → Session
  | .write now data fileSize =>
    let r := st.writeBuffer.write st.client now inode key st.position data fileSize
    ⟨r.2.1, r.2.2, st.position + data.length⟩
  | .flush => st.set (st.writeBuffer.flush st.client inode).2
  | .syncFlush => st.set (st.writeBuffer.syncFlush st.client inode).2
  | .flushExpired now order => st.set (st.writeBuffer.flushExpired st.client now order).2
  | .release => st.set (st.writeBuffer.release st.client inode).2

def finalObject (inode : ℕ) (key : Str) (st : Session) : Option Bytes :=
  AList.lookup key (st.writeBuffer.release st.client inode).2.2.objects

end Session

/-- A new empty file without a buffer, on storage that does not fail, next to buffers of
other files. -/
structure NewFile (wb : WriteBuffer) (cl : ObsClient) (inode : ℕ) (key : Str) : Prop where
  reliable : cl.Reliable
  apart : wb.Apart inode key
  unbuffered : AList.lookup inode wb.buffers = none
  object : AList.lookup key cl.objects = some []

def ObsClient.emptyFile : ObsClient :=
  { ObsClient.fresh with objects := AList.insert ['f'] [] ∅ }

theorem newFile_emptyFile : NewFile (.new .default) .emptyFile 2 ['f'] :=
  ⟨fun _ => rfl, fun _ _ h => (nomatch h), rfl, rfl⟩

end ObsFuse
