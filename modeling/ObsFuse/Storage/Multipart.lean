import ObsFuse.Basic

/-! # Multipart uploads (src/storage/multipart.rs)

The upload state keeps the parts' records only; the bytes handed to `upload_part` are
dropped there, and no request is made. The upload loop runs on a number of rounds; it
returns `none` when its test never turns false, which needs a part size of 0. -/

namespace ObsFuse
open Lib

/-- The fields of `MultipartConfig` that the upload reads. -/
structure MultipartConfig where
  partSize : ℕ
  maxParts : ℕ
  deriving DecidableEq, Repr

structure PartInfo where
  partNumber : ℕ
  etag : Str
  size : ℕ
  deriving DecidableEq, Repr

structure MultipartUploadState where
  path : Str
  parts : List PartInfo
  currentPart : ℕ
  buffer : Bytes
  totalBytes : ℕ
  initiated : Bool
  deriving DecidableEq, Repr

namespace MultipartUploadState

def new (path : Str) : MultipartUploadState where
  path := path
  parts := []
  currentPart := 1
  buffer := []
  totalBytes := 0
  initiated := false

def bufferReady (st : MultipartUploadState) (partSize : ℕ) : Bool := partSize ≤ st.buffer.length

def takeBuffer (st : MultipartUploadState) (partSize : ℕ) :
    Option (Bytes × MultipartUploadState) :=
  if partSize ≤ st.buffer.length then
    some (st.buffer.take partSize, { st with buffer := st.buffer.drop partSize })
  else none

/-- What `MultipartUploader::write` does before its loop. -/
def received (st : MultipartUploadState) (data : Bytes) : MultipartUploadState :=
  { st with buffer := st.buffer ++ data, totalBytes := u64 (st.totalBytes + data.length) }

def takeRemaining (st : MultipartUploadState) : Bytes × MultipartUploadState :=
  (st.buffer, { st with buffer := [] })

/-- `MultipartUploader::upload_part`: the part is recorded and its bytes are dropped. -/
def uploadPart (st : MultipartUploadState) (data : Bytes) : MultipartUploadState :=
  let partNumber := st.currentPart
  let info : PartInfo :=
    ⟨partNumber, "part-".toList ++ Nat.toDigits 10 partNumber, data.length⟩
  { st with currentPart := u32 (st.currentPart + 1), parts := st.parts ++ [info] }

end MultipartUploadState

structure MultipartUploader where
  config : MultipartConfig
  deriving DecidableEq, Repr

namespace MultipartUploader

/-- The `while` loop of `MultipartUploader::write`, for at most `k` rounds. -/
def uploadLoop (up : MultipartUploader) : ℕ → MultipartUploadState → Option MultipartUploadState
  | 0, _ => none
  | k + 1, st =>
    if st.bufferReady up.config.partSize then
      match st.takeBuffer up.config.partSize with
      | some (partData, st) => uploadLoop up k (st.uploadPart partData)
      | none => uploadLoop up k st
    else some st

def write (up : MultipartUploader) (st : MultipartUploadState) (data : Bytes) :
    Option MultipartUploadState :=
  uploadLoop up (st.buffer.length + data.length + 1)
    { st with buffer := st.buffer ++ data, totalBytes := u64 (st.totalBytes + data.length) }

/-- `MultipartUploader::complete`: nothing is written to the bucket. -/
def complete (_up : MultipartUploader) (st : MultipartUploadState) : MultipartUploadState :=
  let (remaining, st) := st.takeRemaining
  if remaining.isEmpty then st else st.uploadPart remaining

def abort (_up : MultipartUploader) (st : MultipartUploadState) : MultipartUploadState :=
  { st with parts := [], buffer := [], currentPart := 1, initiated := false }

def maxFileSize (up : MultipartUploader) : ℕ := u64 (up.config.maxParts * up.config.partSize)

theorem uploadLoop_returns (up : MultipartUploader) (hp : 0 < up.config.partSize) (k : ℕ)
    (st : MultipartUploadState) (hk : st.buffer.length < k) :
    ∃ st', uploadLoop up k st = some st' := by
  induction k generalizing st with
  | zero => omega
  | succ k ih =>
    by_cases hr : up.config.partSize ≤ st.buffer.length
    · have hready : st.bufferReady up.config.partSize = true := by
        simp [MultipartUploadState.bufferReady, hr]
      simp only [uploadLoop, hready, if_true, MultipartUploadState.takeBuffer, hr]
      apply ih
      simp only [MultipartUploadState.uploadPart, List.length_drop]
      omega
    · exact ⟨st, by simp [uploadLoop, MultipartUploadState.bufferReady, hr]⟩

theorem write_returns (up : MultipartUploader) (hp : 0 < up.config.partSize)
    (st : MultipartUploadState) (data : Bytes) : ∃ st', up.write st data = some st' :=
  uploadLoop_returns up hp _ _ (by simp only [List.length_append]; omega)

end MultipartUploader

end ObsFuse
