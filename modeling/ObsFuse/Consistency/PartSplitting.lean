import ObsFuse.Storage.PartTrace

/-! # The parts of an upload

A stream that is written in chunks and then completed. Its parts are its blocks and, last, what
is left of it, whatever the chunks are. -/

namespace ObsFuse
open Lib

namespace MultipartUploader

def writeAll (up : MultipartUploader) : TracedUpload → List Bytes → Option TracedUpload
  | t, [] => some t
  | t, chunk :: chunks =>
    match up.tracedWrite t chunk with
    | some t => writeAll up t chunks
    | none => none

/-- The uploader's own writes of the chunks to a new upload, and its completion. -/
def upload (up : MultipartUploader) (path : Str) (chunks : List Bytes) :
    Option MultipartUploadState :=
  (chunks.foldlM up.write (.new path)).map up.complete

/-- The same with a record of the bytes of every `upload_part`. -/
def uploadAll (up : MultipartUploader) (path : Str) (chunks : List Bytes) : Option TracedUpload :=
  (up.writeAll (.new path) chunks).map up.tracedComplete

end MultipartUploader

/-- The upload has received the bytes: its parts are their blocks, its buffer is the rest. -/
structure TracedUpload.Received (partSize : ℕ) (data : Bytes) (t : TracedUpload) : Prop where
  split : Split partSize data t.sent t.st.buffer
  parts : t.st.parts = MultipartUploadState.partRecords 0 t.sent
  current : t.st.currentPart = u32 (t.sent.length + 1)
  total : t.st.totalBytes = u64 data.length

/-- The completed upload consists of the bytes: no byte is lost, every part but the last is full,
the last one is not empty, and the parts are recorded in order from number 1. -/
structure TracedUpload.Conserves (partSize : ℕ) (data : Bytes) (t : TracedUpload) : Prop where
  bytes : t.sent.flatten = data
  full : ∀ part ∈ t.sent.dropLast, part.length = partSize
  last : ∀ part ∈ t.sent.getLast?, 1 ≤ part.length ∧ part.length ≤ partSize
  sizes : t.st.parts.map (·.size) = t.sent.map List.length
  numbers : t.st.parts.length < 2 ^ 32 - 1 →
    t.st.parts.map (·.partNumber) = List.range' 1 t.st.parts.length
  total : data.length < 2 ^ 64 → t.st.totalBytes = data.length

namespace MultipartUploader
variable {up : MultipartUploader}

theorem new_received (hp : 0 < up.config.partSize) (path : Str) :
    (TracedUpload.new path).Received up.config.partSize [] :=
  ⟨.short hp, rfl, rfl, rfl⟩

theorem tracedWrite_received (hp : 0 < up.config.partSize) {t : TracedUpload} {data : Bytes}
    (h : t.Received up.config.partSize data) (chunk : Bytes) :
    ∃ t', up.tracedWrite t chunk = some t' ∧
      t'.Received up.config.partSize (data ++ chunk) := by
  obtain ⟨blocks, rest, hsplit, hwrite⟩ := tracedWrite_eq hp t chunk
  have hcurrent : ((t.st.received chunk).withBuffer rest).currentPart = u32 (t.sent.length + 1) :=
    h.current
  obtain ⟨hparts, hnext⟩ := MultipartUploadState.uploadParts_records blocks hcurrent
  refine ⟨_, hwrite, ?_, ?_, ?_, ?_⟩
  · rw [MultipartUploadState.uploadParts_buffer]
    exact h.split.append hsplit
  · refine hparts.trans ?_
    rw [MultipartUploadState.partRecords_append, Nat.zero_add, ← h.parts]
    rfl
  · rw [List.length_append]
    exact hnext
  · rw [MultipartUploadState.uploadParts_totalBytes, List.length_append]
    show u64 (t.st.totalBytes + chunk.length) = u64 (data.length + chunk.length)
    rw [h.total]
    exact Nat.mod_add_mod ..

theorem writeAll_received (hp : 0 < up.config.partSize) {t : TracedUpload} {data : Bytes}
    (h : t.Received up.config.partSize data) (chunks : List Bytes) :
    ∃ t', up.writeAll t chunks = some t' ∧
      t'.Received up.config.partSize (data ++ chunks.flatten) := by
  induction chunks generalizing t data with
  | nil =>
    rw [List.flatten_nil, List.append_nil]
    exact ⟨t, rfl, h⟩
  | cons chunk chunks ih =>
    obtain ⟨t₁, hwrite, hreceived⟩ := tracedWrite_received hp h chunk
    obtain ⟨t', hall, hend⟩ := ih hreceived
    rw [List.append_assoc, ← List.flatten_cons] at hend
    refine ⟨t', ?_, hend⟩
    rw [writeAll, hwrite]
    exact hall

/-- What is left in the buffer becomes the last part. -/
theorem tracedComplete_sent (t : TracedUpload) :
    (up.tracedComplete t).sent = if t.st.buffer = [] then t.sent else t.sent ++ [t.st.buffer] := by
  simp only [tracedComplete, MultipartUploadState.takeRemaining, List.isEmpty_iff]
  split
  · rfl
  · rfl

theorem tracedComplete_parts {t : TracedUpload} {data : Bytes}
    (h : t.Received up.config.partSize data) :
    (up.tracedComplete t).st.parts =
      MultipartUploadState.partRecords 0 (up.tracedComplete t).sent := by
  rw [tracedComplete_sent]
  simp only [tracedComplete, MultipartUploadState.takeRemaining, List.isEmpty_iff]
  split
  · exact h.parts
  · rw [MultipartUploadState.partRecords_append, Nat.zero_add, ← h.parts]
    simp only [TracedUpload.uploadPart, MultipartUploadState.uploadPart, h.current,
      MultipartUploadState.partRecords]

theorem tracedComplete_totalBytes (t : TracedUpload) :
    (up.tracedComplete t).st.totalBytes = t.st.totalBytes := by
  simp only [tracedComplete, MultipartUploadState.takeRemaining, List.isEmpty_iff]
  split
  · rfl
  · rfl

theorem tracedComplete_conserves {t : TracedUpload} {data : Bytes}
    (h : t.Received up.config.partSize data) :
    (up.tracedComplete t).Conserves up.config.partSize data := by
  have hrecords := tracedComplete_parts h
  have hfull := h.split.full
  have hshort := h.split.rest_lt
  refine ⟨?_, ?_, ?_, ?_, ?_, ?_⟩
  · have hflat := h.split.flatten
    rw [tracedComplete_sent]
    split
    · next hrest =>
      rw [hrest, List.append_nil] at hflat
      exact hflat
    · rw [List.flatten_append, List.flatten_singleton]
      exact hflat
  · rw [tracedComplete_sent]
    split
    · exact fun part hpart => hfull part (List.dropLast_subset _ hpart)
    · rw [List.dropLast_concat]
      exact hfull
  · rw [tracedComplete_sent]
    split
    · intro part hpart
      have hlen := hfull part (List.mem_of_getLast? hpart)
      omega
    · next hrest =>
      intro part hpart
      rw [List.getLast?_concat] at hpart
      cases hpart
      have hpos := List.length_pos_iff.mpr hrest
      omega
  · rw [hrecords]
    exact MultipartUploadState.partRecords_sizes 0 _
  · rw [hrecords, MultipartUploadState.length_partRecords]
    intro hlt
    exact MultipartUploadState.partRecords_numbers (by omega)
  · intro hlt
    rw [tracedComplete_totalBytes, h.total]
    exact u64_eq hlt

/-- What a completed upload has recorded depends on the bytes alone. -/
theorem parts_eq_of_received {t t' : TracedUpload} {data : Bytes}
    (h : t.Received up.config.partSize data) (h' : t'.Received up.config.partSize data) :
    (up.tracedComplete t).st.parts = (up.tracedComplete t').st.parts := by
  obtain ⟨hsent, hrest⟩ := h.split.unique h'.split
  rw [tracedComplete_parts h, tracedComplete_parts h', tracedComplete_sent, tracedComplete_sent,
    hsent, hrest]

theorem writeAll_st (t : TracedUpload) (chunks : List Bytes) :
    (up.writeAll t chunks).map TracedUpload.st = chunks.foldlM up.write t.st := by
  induction chunks generalizing t with
  | nil => rfl
  | cons chunk chunks ih =>
    rw [List.foldlM_cons, ← tracedWrite_st, writeAll]
    cases up.tracedWrite t chunk with
    | none => rfl
    | some t₁ => exact ih t₁

/-- The record is one of the uploader's own writes and completion. -/
theorem uploadAll_st (path : Str) (chunks : List Bytes) :
    (up.uploadAll path chunks).map TracedUpload.st = up.upload path chunks := by
  have hwrites := @writeAll_st up (.new path) chunks
  rw [upload, uploadAll, Option.map_map, ← show _ = chunks.foldlM up.write (.new path) from hwrites,
    Option.map_map]
  congr 1
  funext t
  exact tracedComplete_st t

end MultipartUploader

/-- However a stream is cut into chunks, the uploader's writes and completion end in a state that
conserves its bytes, with a record of what was handed to `upload_part`, and in which the same parts
are recorded. -/
theorem upload_conserves_bytes (up : MultipartUploader) (hp : 0 < up.config.partSize) (path : Str)
    (chunks : List Bytes) :
    ∃ t, up.uploadAll path chunks = some t ∧ up.upload path chunks = some t.st ∧
      t.Conserves up.config.partSize chunks.flatten ∧
      ∀ chunks' : List Bytes, chunks'.flatten = chunks.flatten →
        ∃ st', up.upload path chunks' = some st' ∧ st'.parts = t.st.parts := by
  obtain ⟨t, hall, hreceived⟩ := MultipartUploader.writeAll_received hp
    (MultipartUploader.new_received hp path) chunks
  have hupload : up.uploadAll path chunks = some (up.tracedComplete t) := by
    rw [MultipartUploader.uploadAll, hall]
    rfl
  refine ⟨up.tracedComplete t, hupload, ?_, MultipartUploader.tracedComplete_conserves hreceived,
    ?_⟩
  · rw [← MultipartUploader.uploadAll_st, hupload]
    rfl
  · intro chunks' hsame
    obtain ⟨t', hall', hreceived'⟩ := MultipartUploader.writeAll_received hp
      (MultipartUploader.new_received hp path) chunks'
    rw [hsame] at hreceived'
    refine ⟨(up.tracedComplete t').st, ?_,
      MultipartUploader.parts_eq_of_received hreceived' hreceived⟩
    rw [← MultipartUploader.uploadAll_st, MultipartUploader.uploadAll, hall']
    rfl

/-- Seven bytes in two chunks, in parts of three. -/
theorem seven_bytes_uploaded :
    let up : MultipartUploader := ⟨⟨3, 10000⟩⟩
    ∃ t, up.uploadAll ['f'] [[1, 2, 3, 4, 5], [6, 7]] = some t ∧
      up.upload ['f'] [[1, 2, 3, 4, 5], [6, 7]] = some t.st ∧
      t.Conserves 3 [1, 2, 3, 4, 5, 6, 7] ∧
      ∀ chunks' : List Bytes, chunks'.flatten = [1, 2, 3, 4, 5, 6, 7] →
        ∃ st', up.upload ['f'] chunks' = some st' ∧ st'.parts = t.st.parts := by
  intro up
  exact upload_conserves_bytes up (by decide) ['f'] [[1, 2, 3, 4, 5], [6, 7]]

end ObsFuse
