import ObsFuse.Lib.Blocks
import ObsFuse.Storage.Multipart

/-! # The parts that an upload hands over

The functions of the uploader again, with a record of the bytes of every `upload_part`. What a
write hands over is what its buffer and its data are cut into. -/

namespace ObsFuse
open Lib

structure TracedUpload where
  st : MultipartUploadState
  sent : List Bytes
  deriving DecidableEq, Repr

namespace TracedUpload

def new (path : Str) : TracedUpload := ⟨.new path, []⟩

def uploadPart (t : TracedUpload) (data : Bytes) : TracedUpload :=
  ⟨t.st.uploadPart data, t.sent ++ [data]⟩

end TracedUpload

namespace MultipartUploadState

def uploadParts (st : MultipartUploadState) (parts : List Bytes) : MultipartUploadState :=
  parts.foldl uploadPart st

def withBuffer (st : MultipartUploadState) (buffer : Bytes) : MultipartUploadState :=
  { st with buffer := buffer }

end MultipartUploadState

namespace MultipartUploader

/-- `uploadLoop` with the parts handed over. -/
def tracedLoop (up : MultipartUploader) : ℕ → TracedUpload → Option TracedUpload
  | 0, _ => none
  | k + 1, t =>
    if t.st.bufferReady up.config.partSize then
      match t.st.takeBuffer up.config.partSize with
      | some (partData, st) => tracedLoop up k (TracedUpload.uploadPart ⟨st, t.sent⟩ partData)
      | none => tracedLoop up k t
    else some t

def tracedWrite (up : MultipartUploader) (t : TracedUpload) (data : Bytes) : Option TracedUpload :=
  tracedLoop up (t.st.buffer.length + data.length + 1) ⟨t.st.received data, t.sent⟩

def tracedComplete (_up : MultipartUploader) (t : TracedUpload) : TracedUpload :=
  let (remaining, st) := t.st.takeRemaining
  if remaining.isEmpty then ⟨st, t.sent⟩ else TracedUpload.uploadPart ⟨st, t.sent⟩ remaining

variable {up : MultipartUploader}

theorem tracedLoop_st (k : ℕ) (t : TracedUpload) :
    (up.tracedLoop k t).map TracedUpload.st = up.uploadLoop k t.st := by
  induction k generalizing t with
  | zero => rfl
  | succ k ih =>
    unfold tracedLoop uploadLoop
    split
    · cases t.st.takeBuffer up.config.partSize with
      | some taken => exact ih _
      | none => exact ih _
    · rfl

/-- The record changes nothing. -/
theorem tracedWrite_st (t : TracedUpload) (data : Bytes) :
    (up.tracedWrite t data).map TracedUpload.st = up.write t.st data :=
  tracedLoop_st _ _

theorem tracedComplete_st (t : TracedUpload) :
    (up.tracedComplete t).st = up.complete t.st := by
  simp only [tracedComplete, complete]
  split
  · rfl
  · rfl

/-- Enough rounds of the loop upload the blocks of the buffer and leave the rest. -/
theorem tracedLoop_eq (hp : 0 < up.config.partSize) (k : ℕ) (t : TracedUpload)
    (hk : t.st.buffer.length < k) :
    ∃ blocks rest, Split up.config.partSize t.st.buffer blocks rest ∧
      up.tracedLoop k t =
        some ⟨(t.st.withBuffer rest).uploadParts blocks, t.sent ++ blocks⟩ := by
  induction k generalizing t with
  | zero => omega
  | succ k ih =>
    by_cases hlen : up.config.partSize ≤ t.st.buffer.length
    · have hready : t.st.bufferReady up.config.partSize = true := decide_eq_true hlen
      have htake : (t.st.buffer.take up.config.partSize).length = up.config.partSize := by
        rw [List.length_take]
        omega
      obtain ⟨blocks, rest, hsplit, hloop⟩ := ih
        (TracedUpload.uploadPart ⟨t.st.withBuffer (t.st.buffer.drop up.config.partSize), t.sent⟩
          (t.st.buffer.take up.config.partSize)) (by
            show (t.st.buffer.drop up.config.partSize).length < k
            rw [List.length_drop]
            omega)
      refine ⟨t.st.buffer.take up.config.partSize :: blocks, rest, ?_, ?_⟩
      · have hblock : Split up.config.partSize
            (t.st.buffer.take up.config.partSize ++ t.st.buffer.drop up.config.partSize)
            (t.st.buffer.take up.config.partSize :: blocks) rest := .block htake hsplit
        rw [List.take_append_drop] at hblock
        exact hblock
      · unfold tracedLoop
        rw [if_pos hready, MultipartUploadState.takeBuffer, if_pos hlen]
        refine hloop.trans ?_
        rw [TracedUpload.uploadPart, List.append_assoc]
        rfl
    · have hready : t.st.bufferReady up.config.partSize = false := decide_eq_false hlen
      refine ⟨[], t.st.buffer, .short (by omega), ?_⟩
      unfold tracedLoop
      rw [hready, List.append_nil]
      rfl

/-- A write uploads the blocks of what is buffered and what is written, and buffers the rest. -/
theorem tracedWrite_eq (hp : 0 < up.config.partSize) (t : TracedUpload) (data : Bytes) :
    ∃ blocks rest, Split up.config.partSize (t.st.buffer ++ data) blocks rest ∧
      up.tracedWrite t data =
        some ⟨((t.st.received data).withBuffer rest).uploadParts blocks, t.sent ++ blocks⟩ := by
  have hrounds : (t.st.buffer ++ data).length < t.st.buffer.length + data.length + 1 := by
    rw [List.length_append]
    omega
  exact tracedLoop_eq hp _ ⟨t.st.received data, t.sent⟩ hrounds

theorem write_uploads (hp : 0 < up.config.partSize) (st : MultipartUploadState) (data : Bytes) :
    ∃ blocks rest, Split up.config.partSize (st.buffer ++ data) blocks rest ∧
      up.write st data = some (((st.received data).withBuffer rest).uploadParts blocks) := by
  obtain ⟨blocks, rest, hsplit, hwrite⟩ := tracedWrite_eq hp ⟨st, []⟩ data
  refine ⟨blocks, rest, hsplit, ?_⟩
  rw [← tracedWrite_st ⟨st, []⟩ data, hwrite]
  rfl

end MultipartUploader

namespace MultipartUploadState
variable (st : MultipartUploadState)

@[simp] theorem uploadParts_buffer (parts : List Bytes) :
    (st.uploadParts parts).buffer = st.buffer := by
  induction parts generalizing st with
  | nil => rfl
  | cons part parts ih => exact ih (st.uploadPart part)

@[simp] theorem uploadParts_totalBytes (parts : List Bytes) :
    (st.uploadParts parts).totalBytes = st.totalBytes := by
  induction parts generalizing st with
  | nil => rfl
  | cons part parts ih => exact ih (st.uploadPart part)

/-- The records of parts that come after the first `n`. -/
def partRecords : ℕ → List Bytes → List PartInfo
  | _, [] => []
  | n, part :: parts =>
    ⟨u32 (n + 1), "part-".toList ++ Nat.toDigits 10 (u32 (n + 1)), part.length⟩ ::
      partRecords (n + 1) parts

variable {st}

theorem uploadParts_records (parts : List Bytes) {n : ℕ} (hn : st.currentPart = u32 (n + 1)) :
    (st.uploadParts parts).parts = st.parts ++ partRecords n parts ∧
      (st.uploadParts parts).currentPart = u32 (n + parts.length + 1) := by
  induction parts generalizing st n with
  | nil => exact ⟨(List.append_nil _).symm, hn⟩
  | cons part parts ih =>
    have hnext : (st.uploadPart part).currentPart = u32 (n + 1 + 1) := by
      show u32 (st.currentPart + 1) = u32 (n + 1 + 1)
      rw [hn]
      exact Nat.mod_add_mod (n + 1) (2 ^ 32) 1
    obtain ⟨hparts, hcurrent⟩ := ih hnext
    constructor
    · refine hparts.trans ?_
      simp only [uploadPart, partRecords, hn, List.append_assoc]
      rfl
    · refine hcurrent.trans ?_
      rw [List.length_cons, Nat.add_assoc n 1, Nat.add_comm 1 parts.length]

theorem partRecords_append (n : ℕ) (parts parts' : List Bytes) :
    partRecords n (parts ++ parts') =
      partRecords n parts ++ partRecords (n + parts.length) parts' := by
  induction parts generalizing n with
  | nil => rfl
  | cons part parts ih =>
    rw [List.cons_append, partRecords, partRecords, ih, List.length_cons, Nat.add_assoc n 1,
      Nat.add_comm 1 parts.length]
    rfl

theorem length_partRecords (n : ℕ) (parts : List Bytes) :
    (partRecords n parts).length = parts.length := by
  induction parts generalizing n with
  | nil => rfl
  | cons part parts ih => exact congrArg (· + 1) (ih (n + 1))

theorem partRecords_sizes (n : ℕ) (parts : List Bytes) :
    (partRecords n parts).map (·.size) = parts.map List.length := by
  induction parts generalizing n with
  | nil => rfl
  | cons part parts ih => exact congrArg (part.length :: ·) (ih (n + 1))

theorem partRecords_numbers {n : ℕ} {parts : List Bytes} (h : n + parts.length < 2 ^ 32) :
    (partRecords n parts).map (·.partNumber) = List.range' (n + 1) parts.length := by
  induction parts generalizing n with
  | nil => rfl
  | cons part parts ih =>
    rw [List.length_cons] at h
    have hnumber : u32 (n + 1) = n + 1 := Nat.mod_eq_of_lt (by omega)
    have hrest := ih (n := n + 1) (by omega)
    rw [partRecords, List.map_cons, hrest, List.length_cons, List.range'_succ]
    exact congrArg (· :: _) hnumber

end MultipartUploadState

end ObsFuse
