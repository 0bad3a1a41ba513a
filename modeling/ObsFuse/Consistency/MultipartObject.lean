import ObsFuse.Consistency.Session

/-! # A new file past the multipart threshold

A new file is written in contiguous chunks, with no flush before the release. Up to the
threshold the release stores the stream in one piece. From the threshold on the bytes go
to the upload state, which hands none of them to the storage. -/

namespace ObsFuse
open Lib

structure Chunk where
  now : Instant
  data : Bytes
  fileSize : ℕ

def Chunk.op (c : Chunk) : SessionOp := .write c.now c.data c.fileSize

def streamOf (chunks : List Chunk) : Bytes := (chunks.map (·.data)).flatten

/-- What the file's buffer looks like after the stream `d`: all of it is held, or an
upload is in progress. -/
structure StreamBuffer (cfg : WriteBufferConfig) (key : Str) (d : Bytes) (buf : FileWriteBuffer) :
    Prop where
  path : buf.path = key
  sequential : buf.sequentialWrite = true
  next : buf.nextOffset = d.length
  held : buf.multipart = none → buf.data = d ∧ (d ≠ [] → buf.dirty = true)
  below : buf.multipart = none → d = [] ∨ d.length < cfg.multipartThreshold
  started : buf.multipart.isSome → cfg.multipartThreshold ≤ d.length

namespace StreamBuffer
variable {cfg : WriteBufferConfig} {key : Str} {d : Bytes} {buf : FileWriteBuffer} {cl : ObsClient}

theorem fresh (cfg : WriteBufferConfig) (now : Instant) (inode : ℕ) (key : Str) (size : ℕ) :
    StreamBuffer cfg key [] (.new now inode key size) where
  path := rfl
  sequential := rfl
  next := rfl
  held _ := ⟨rfl, fun h => absurd rfl h⟩
  below _ := .inl rfl
  started := nofun

theorem multipart_none (h : StreamBuffer cfg key d buf) (hlt : d.length < cfg.multipartThreshold) :
    buf.multipart = none := by
  cases hm : buf.multipart with
  | none => rfl
  | some mp =>
    have := h.started (by rw [hm]; rfl)
    omega

theorem step (h : StreamBuffer cfg key d buf) (cl : ObsClient) (hp : 0 < cfg.partSize)
    (now : Instant) (data : Bytes) (hb : d.length + data.length < cfg.bufferSize) :
    ∃ buf', cfg.writeLocked buf cl now key d.length data = (.ok data.length, buf', cl) ∧
      StreamBuffer cfg key (d ++ data) buf' := by
  have hdir : buf.goesDirect d.length = false := by
    rw [← Bool.not_eq_true, FileWriteBuffer.goesDirect_iff]
    simp [h.sequential, h.next]
  have hseq : (buf.appended now d.length data).sequentialWrite = true := by
    rw [FileWriteBuffer.appended_sequentialWrite, FileWriteBuffer.placed_sequentialWrite]
    exact ⟨h.sequential, h.next.symm⟩
  have hnext : (buf.appended now d.length data).nextOffset = (d ++ data).length := by
    have hlt := cfg.bufferSize_lt
    rw [FileWriteBuffer.appended_nextOffset, u64_eq (by omega), List.length_append]
  by_cases ht : d.length + data.length < cfg.multipartThreshold
  · have hm := h.multipart_none (by omega)
    obtain ⟨hdata, -⟩ := h.held hm
    refine ⟨_, cfg.writeLocked_append now key d.length data hdir hm (by rwa [hdata])
      (by rwa [hdata]), ?_⟩
    exact {
      path := h.path
      sequential := hseq
      next := hnext
      held := fun _ => ⟨by simp [hdata], fun _ => rfl⟩
      below := fun _ => .inr (by simpa using ht)
      started := by simp [hm] }
  · have hparts : ¬(buf.multipart = none ∧
        buf.data.length + data.length < cfg.multipartThreshold) := by
      intro hc
      obtain ⟨hm, hlt⟩ := hc
      rw [(h.held hm).1] at hlt
      exact ht hlt
    obtain ⟨rest, mp, hw⟩ := cfg.writeLocked_parts hp now key d.length data hdir hparts
    refine ⟨_, hw, ?_⟩
    exact {
      path := h.path
      sequential := hseq
      next := hnext
      held := nofun
      below := nofun
      started := fun _ => by simpa using ht }

theorem flush_object (h : StreamBuffer cfg key d buf) (hr : cl.Reliable)
    (ho : AList.lookup key cl.objects = some []) :
    AList.lookup key (cfg.flushBuffer buf cl).2.2.objects =
      some (if d.length < cfg.multipartThreshold then d else []) := by
  split
  · next hlt =>
    have hm := h.multipart_none hlt
    obtain ⟨hdata, hdirty⟩ := h.held hm
    rw [cfg.flushBuffer_reliable (by rwa [hdata]) hm hr, hdata]
    by_cases hd : d = []
    · simp [hd, ho]
    · simp [hd, h.path]
  · next hge =>
    rcases cfg.flushBuffer_cases buf cl with
      ⟨-, heq⟩ | ⟨⟨-, hne⟩, ⟨hm, -⟩ | ⟨mp, -, ⟨-, heq⟩ | ⟨-, heq⟩⟩⟩
    · rw [heq]
      exact ho
    · have hnil : d = [] := (h.below hm).resolve_right hge
      exact absurd ((h.held hm).1.trans hnil) hne
    · rw [heq]
      exact ho
    · rw [heq]
      exact ho

end StreamBuffer

/-- The session after the stream `d`: the file has no buffer yet, or one as described. -/
structure StreamAt (cfg : WriteBufferConfig) (inode : ℕ) (key : Str) (d : Bytes) (cl : ObsClient)
    (st : Session) : Prop where
  config : st.writeBuffer.config = cfg
  client : st.client = cl
  position : st.position = d.length
  fresh : AList.lookup inode st.writeBuffer.buffers = none → d = []
  buffer : ∀ buf ∈ AList.lookup inode st.writeBuffer.buffers, StreamBuffer cfg key d buf

namespace StreamAt
variable {cfg : WriteBufferConfig} {inode : ℕ} {key : Str} {d : Bytes} {cl : ObsClient}
  {st : Session}

theorem step (h : StreamAt cfg inode key d cl st) (hp : 0 < cfg.partSize) (c : Chunk)
    (hb : d.length + c.data.length < cfg.bufferSize) :
    StreamAt cfg inode key (d ++ c.data) cl (st.step inode key c.op) := by
  have hbuf : StreamBuffer cfg key d (st.writeBuffer.bufferFor c.now inode key c.fileSize) := by
    cases hb : AList.lookup inode st.writeBuffer.buffers with
    | none =>
      rw [WriteBuffer.bufferFor_none hb, h.fresh hb]
      exact .fresh ..
    | some buf =>
      rw [WriteBuffer.bufferFor_some hb]
      exact h.buffer buf hb
  obtain ⟨buf', hw, hbuf'⟩ := hbuf.step cl hp c.now c.data hb
  have hstep : st.step inode key c.op =
      ⟨⟨st.writeBuffer.buffers.insert inode buf', cfg⟩, cl, d.length + c.data.length⟩ := by
    rw [Chunk.op, Session.step, WriteBuffer.write_eq, h.config, h.client, h.position, hw]
  rw [hstep]
  exact {
    config := rfl
    client := rfl
    position := by simp
    fresh := by simp
    buffer := by simpa using hbuf' }

theorem run (h : StreamAt cfg inode key d cl st) (hp : 0 < cfg.partSize) (chunks : List Chunk)
    (hb : d.length + (streamOf chunks).length < cfg.bufferSize) :
    StreamAt cfg inode key (d ++ streamOf chunks) cl
      (run (Session.step inode key) st (chunks.map (·.op))) := by
  induction chunks generalizing d st with
  | nil => simpa [streamOf] using h
  | cons c chunks ih =>
    have hstream : streamOf (c :: chunks) = c.data ++ streamOf chunks := by simp [streamOf]
    rw [hstream, List.length_append] at hb
    rw [List.map_cons, run_cons, hstream, ← List.append_assoc]
    exact ih (h.step hp c (by omega)) (by rw [List.length_append]; omega)

theorem finalObject (h : StreamAt cfg inode key d cl st) (hr : cl.Reliable)
    (ho : AList.lookup key cl.objects = some []) :
    st.finalObject inode key = some (if d.length < cfg.multipartThreshold then d else []) := by
  rw [Session.finalObject, h.client]
  cases hb : AList.lookup inode st.writeBuffer.buffers with
  | none =>
    rw [WriteBuffer.release_none hb, h.fresh hb]
    simpa using ho
  | some buf =>
    rw [WriteBuffer.release_some hb, h.config]
    exact (h.buffer buf hb).flush_object hr ho

end StreamAt

/-- After any contiguous chunks of a new file and the release, the object is the stream
exactly when the stream stays below the multipart threshold or is empty. -/
theorem chunked_object_eq_stream_iff {wb : WriteBuffer} {cl : ObsClient} {inode : ℕ} {key : Str}
    (h : NewFile wb cl inode key) (hp : 0 < wb.config.partSize) (chunks : List Chunk)
    (hb : (streamOf chunks).length < wb.config.bufferSize) :
    (run (Session.step inode key) ⟨wb, cl, 0⟩ (chunks.map (·.op))).finalObject inode key =
        some (streamOf chunks) ↔
      streamOf chunks = [] ∨ (streamOf chunks).length < wb.config.multipartThreshold := by
  have hstart : StreamAt wb.config inode key [] cl ⟨wb, cl, 0⟩ :=
    ⟨rfl, rfl, rfl, fun _ => rfl, by simp [h.unbuffered]⟩
  have hrun := hstart.run hp chunks (by simpa using hb)
  rw [hrun.finalObject h.reliable h.object, List.nil_append, Option.some.injEq]
  by_cases ht : (streamOf chunks).length < wb.config.multipartThreshold
  · simp [ht]
  · rw [if_neg ht, or_iff_left ht, eq_comm]

def WriteBufferConfig.smallParts : WriteBufferConfig :=
  ⟨100, 30 * 10 ^ 9, 4, 2, by decide, by decide, by decide⟩

theorem newFile_smallParts : NewFile (.new .smallParts) .emptyFile 2 ['f'] :=
  ⟨fun _ => rfl, fun _ _ h => (nomatch h), rfl, rfl⟩

/-- Three bytes in two chunks stay below the threshold. -/
theorem three_bytes_reach_object :
    (run (Session.step 2 ['f']) ⟨.new .smallParts, .emptyFile, 0⟩
        ([⟨1, [1, 2], 0⟩, ⟨2, [3], 2⟩].map Chunk.op)).finalObject 2 ['f'] = some [1, 2, 3] :=
  (chunked_object_eq_stream_iff newFile_smallParts (by decide) [⟨1, [1, 2], 0⟩, ⟨2, [3], 2⟩]
    (by decide)).mpr (by decide)

/-- Five bytes pass the threshold, and none of them is stored. -/
theorem five_bytes_lost_past_threshold :
    NewFile (.new .smallParts) .emptyFile 2 ['f'] ∧ 0 < WriteBufferConfig.smallParts.partSize ∧
      (streamOf [⟨1, [1, 2, 3], 0⟩, ⟨2, [4, 5], 3⟩]).length <
        WriteBufferConfig.smallParts.bufferSize ∧
      streamOf [⟨1, [1, 2, 3], 0⟩, ⟨2, [4, 5], 3⟩] = [1, 2, 3, 4, 5] ∧
      (run (Session.step 2 ['f']) ⟨.new .smallParts, .emptyFile, 0⟩
        ([⟨1, [1, 2, 3], 0⟩, ⟨2, [4, 5], 3⟩].map Chunk.op)).finalObject 2 ['f'] = some [] :=
  ⟨newFile_smallParts, by decide, by decide, by decide, by decide⟩

end ObsFuse
