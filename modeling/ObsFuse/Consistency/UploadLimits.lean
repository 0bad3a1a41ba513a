import ObsFuse.Lib.Runs
import ObsFuse.Storage.PartTrace

/-! # The limits of an upload

The uploader does not look at its limits, and an abort leaves the count of bytes as it is. -/

namespace ObsFuse
open Lib

inductive UploadCall where
  | write (data : Bytes)
  | complete
  | abort
  deriving DecidableEq, Repr

namespace MultipartUploadState

def partBytes (st : MultipartUploadState) : ℕ := (st.parts.map (·.size)).sum

/-- Within the limits of the uploader, and all bytes counted. -/
structure WithinLimits (up : MultipartUploader) (st : MultipartUploadState) : Prop where
  parts : st.parts.length ≤ up.config.maxParts
  counted : st.totalBytes = st.partBytes + st.buffer.length
  total : st.totalBytes ≤ up.maxFileSize

/-- The call leaves room for what it adds; an abort finds no byte counted. -/
def LeavesRoom (up : MultipartUploader) (st : MultipartUploadState) : UploadCall → Prop
  | .write data =>
    st.parts.length + (st.buffer.length + data.length) / up.config.partSize ≤ up.config.maxParts ∧
      st.totalBytes + data.length ≤ up.maxFileSize
  | .complete => st.buffer ≠ [] → st.parts.length + 1 ≤ up.config.maxParts
  | .abort => st.totalBytes = 0

instance (up : MultipartUploader) (st : MultipartUploadState) :
    (call : UploadCall) → Decidable (st.LeavesRoom up call)
  | .write _ => inferInstanceAs (Decidable (_ ∧ _))
  | .complete => inferInstanceAs (Decidable (_ → _))
  | .abort => inferInstanceAs (Decidable (_ = _))

end MultipartUploadState

namespace MultipartUploader
open MultipartUploadState

/-- One call; under a positive part size a write always returns. -/
def step (up : MultipartUploader) (st : MultipartUploadState) : UploadCall → MultipartUploadState
  | .write data => (up.write st data).getD st
  | .complete => up.complete st
  | .abort => up.abort st

variable {up : MultipartUploader} {st : MultipartUploadState}

theorem partBytes_uploadParts (st : MultipartUploadState) (parts : List Bytes) :
    (st.uploadParts parts).partBytes = st.partBytes + parts.flatten.length ∧
      (st.uploadParts parts).parts.length = st.parts.length + parts.length := by
  induction parts generalizing st with
  | nil => exact ⟨rfl, rfl⟩
  | cons part parts ih =>
    obtain ⟨hbytes, hcount⟩ := ih (st.uploadPart part)
    have hhead : (st.uploadPart part).partBytes = st.partBytes + part.length := by
      simp [partBytes, uploadPart]
    have hlen : (st.uploadPart part).parts.length = st.parts.length + 1 := by
      simp [uploadPart]
    refine ⟨hbytes.trans ?_, hcount.trans ?_⟩
    · rw [hhead, List.flatten_cons, List.length_append, Nat.add_assoc]
    · rw [hlen, List.length_cons]
      omega

theorem write_counts (hp : 0 < up.config.partSize) (st : MultipartUploadState) (data : Bytes) :
    (up.step st (.write data)).parts.length =
        st.parts.length + (st.buffer.length + data.length) / up.config.partSize ∧
      (up.step st (.write data)).partBytes + (up.step st (.write data)).buffer.length =
        st.partBytes + (st.buffer.length + data.length) ∧
      (up.step st (.write data)).totalBytes = u64 (st.totalBytes + data.length) := by
  obtain ⟨blocks, rest, hsplit, hwrite⟩ := write_uploads hp st data
  have hstep : up.step st (.write data) =
      ((st.received data).withBuffer rest).uploadParts blocks := by
    show (up.write st data).getD st = _
    rw [hwrite]
    rfl
  obtain ⟨hbytes, hcount⟩ := partBytes_uploadParts ((st.received data).withBuffer rest) blocks
  have hblocks := hsplit.length_blocks
  have hflat := congrArg List.length hsplit.flatten
  rw [List.length_append] at hblocks
  rw [List.length_append, List.length_append] at hflat
  rw [hstep, uploadParts_buffer, uploadParts_totalBytes, hbytes, hcount, hblocks]
  refine ⟨rfl, ?_, rfl⟩
  show st.partBytes + blocks.flatten.length + rest.length = _
  omega

theorem complete_of_nil (h : st.buffer = []) : up.complete st = st := by
  obtain ⟨path, parts, currentPart, buffer, totalBytes, initiated⟩ := st
  obtain rfl : buffer = [] := h
  rfl

theorem complete_of_ne (h : st.buffer ≠ []) :
    up.complete st = (st.withBuffer []).uploadPart st.buffer := by
  simp only [complete, takeRemaining, List.isEmpty_iff]
  exact if_neg h

theorem maxFileSize_lt (up : MultipartUploader) : up.maxFileSize < 2 ^ 64 := u64_lt _

end MultipartUploader

namespace MultipartUploadState
variable {up : MultipartUploader} {st : MultipartUploadState}

theorem WithinLimits.write_iff (hp : 0 < up.config.partSize) (h : st.WithinLimits up)
    (data : Bytes) :
    (up.step st (.write data)).WithinLimits up ↔ st.LeavesRoom up (.write data) := by
  obtain ⟨hparts, hbytes, htotal⟩ := up.write_counts hp st data
  have hcounted := h.counted
  have hmax := up.maxFileSize_lt
  constructor
  · intro h'
    have hparts' := h'.parts
    have hcounted' := h'.counted
    have htotal' := h'.total
    -- a count that has wrapped is not the sum of the sizes
    rw [hbytes] at hcounted'
    rw [hparts] at hparts'
    exact ⟨hparts', by omega⟩
  · intro ⟨hroom, hfits⟩
    have hexact : u64 (st.totalBytes + data.length) = st.totalBytes + data.length :=
      u64_eq (by omega)
    rw [hexact] at htotal
    exact ⟨by rw [hparts]; exact hroom, by omega, by rw [htotal]; exact hfits⟩

theorem WithinLimits.complete_iff (h : st.WithinLimits up) :
    (up.complete st).WithinLimits up ↔ st.LeavesRoom up .complete := by
  by_cases hbuffer : st.buffer = []
  · rw [MultipartUploader.complete_of_nil hbuffer]
    exact Iff.intro (fun _ hne => absurd hbuffer hne) fun _ => h
  · rw [MultipartUploader.complete_of_ne hbuffer]
    obtain ⟨hbytes, hcount⟩ :=
      MultipartUploader.partBytes_uploadParts (st.withBuffer []) [st.buffer]
    constructor
    · intro h' _
      have hparts := h'.parts
      rw [show ((st.withBuffer []).uploadPart st.buffer).parts.length = st.parts.length + 1
        from hcount] at hparts
      exact hparts
    · intro hroom
      refine ⟨le_trans (Nat.le_of_eq hcount) (hroom hbuffer), ?_, h.total⟩
      have hcounted := h.counted
      rw [List.flatten_singleton] at hbytes
      exact hcounted.trans hbytes.symm

theorem WithinLimits.abort_iff (st : MultipartUploadState) :
    (up.abort st).WithinLimits up ↔ st.LeavesRoom up .abort := by
  constructor
  · intro h'
    exact h'.counted
  · intro hzero
    refine ⟨Nat.zero_le _, hzero, ?_⟩
    show st.totalBytes ≤ up.maxFileSize
    rw [show st.totalBytes = 0 from hzero]
    exact Nat.zero_le _

theorem WithinLimits.step_iff (hp : 0 < up.config.partSize) (h : st.WithinLimits up)
    (call : UploadCall) : (up.step st call).WithinLimits up ↔ st.LeavesRoom up call := by
  cases call with
  | write data => exact h.write_iff hp data
  | complete => exact h.complete_iff
  | abort => exact abort_iff st

theorem new_withinLimits (up : MultipartUploader) (path : Str) :
    (MultipartUploadState.new path).WithinLimits up :=
  ⟨Nat.zero_le _, rfl, Nat.zero_le _⟩

end MultipartUploadState

/-- In every run on a new upload, all states are within the limits, with all bytes counted,
exactly when each call leaves room for what it adds and no abort finds a count. -/
theorem upload_within_limits_iff (up : MultipartUploader) (hp : 0 < up.config.partSize) (path : Str)
    (calls : List UploadCall) :
    (∀ n, (run up.step (.new path) (calls.take n)).WithinLimits up) ↔
      Along up.step (MultipartUploadState.LeavesRoom up) (.new path) calls :=
  @forall_states_iff_along _ _ up.step (MultipartUploadState.LeavesRoom up) (fun _ => True)
    (MultipartUploadState.WithinLimits up) (fun _ _ _ => trivial)
    (fun _ call _ h => h.step_iff hp call) _ calls trivial
    (MultipartUploadState.new_withinLimits up path)

/-- Seven bytes in parts of three, completed. -/
theorem small_upload_within_limits :
    let up : MultipartUploader := ⟨⟨3, 10000⟩⟩
    let calls : List UploadCall := [.abort, .write [1, 2, 3, 4], .write [5, 6, 7], .complete]
    (run up.step (.new ['f']) calls).WithinLimits up := by
  intro up calls
  exact (upload_within_limits_iff up (by decide) ['f'] calls).mpr (by decide) 4

/-- One byte is written and the upload aborted: the byte stays counted. A second part goes where
one part is allowed. -/
theorem aborted_upload_counts_byte :
    let up : MultipartUploader := ⟨⟨3, 1⟩⟩
    let aborted := run up.step (.new ['f']) [.write [1], .abort]
    let second := run up.step (.new ['f']) [.write [1, 2, 3, 4], .complete]
    (aborted.totalBytes = 1 ∧ aborted.parts = [] ∧ aborted.buffer = []) ∧
      ¬aborted.WithinLimits up ∧ second.parts.length = 2 ∧ ¬second.WithinLimits up := by
  intro up aborted second
  refine ⟨by decide, fun h => ?_, by decide, fun h => ?_⟩
  · have hcounted := h.counted
    revert hcounted
    decide
  · have hparts := h.parts
    revert hparts
    decide

end ObsFuse
