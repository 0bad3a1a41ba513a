import ObsFuse.Cache.BufferRule
import ObsFuse.Consistency.LiveNames
import ObsFuse.Consistency.PartSplitting
import ObsFuse.Fs.Footprint

/-! # How much the buffers hold

A write that fills the buffer is followed by a flush, and an upload takes all whole parts, so that
less than the buffer size, or than a part, is left in memory. A flush that fails leaves nothing. -/

namespace ObsFuse
open Lib

/-- The upload has received whole parts only, and recorded them. -/
def MultipartUploadState.InFullParts (partSize : ℕ) (st : MultipartUploadState) : Prop :=
  st.buffer = [] ∧ ∃ sent, TracedUpload.Received partSize sent.flatten ⟨st, sent⟩

def FileWriteBuffer.Bounded (cfg : WriteBufferConfig) (buf : FileWriteBuffer) : Prop :=
  match buf.multipart with
  | none => buf.data.length < max cfg.bufferSize 1
  | some up => buf.data.length < cfg.partSize ∧ up.InFullParts cfg.partSize

theorem FileWriteBuffer.Bounded.of_empty {cfg : WriteBufferConfig} {buf : FileWriteBuffer}
    (hm : buf.multipart = none) (hd : buf.data = []) : buf.Bounded cfg := by
  unfold FileWriteBuffer.Bounded
  rw [hm, hd]
  exact Nat.lt_of_lt_of_le Nat.zero_lt_one (Nat.le_max_right ..)

/-! ### The upload -/

namespace MultipartUploader
variable {up : MultipartUploader}

/-- A whole part is uploaded at once. -/
theorem write_inFullParts (hp : 0 < up.config.partSize) {st : MultipartUploadState}
    (h : st.InFullParts up.config.partSize) {part : Bytes}
    (hpart : part.length = up.config.partSize) :
    ∃ st', up.write st part = some st' ∧ st'.InFullParts up.config.partSize := by
  obtain ⟨hempty, sent, hreceived⟩ := h
  obtain ⟨⟨st', sent'⟩, hwrite, hreceived'⟩ := tracedWrite_received hp hreceived part
  have hst : up.write st part = some st' := by
    rw [← tracedWrite_st ⟨st, sent⟩ part, hwrite]
    rfl
  have hbefore : sent.flatten.length = sent.length * up.config.partSize + st.buffer.length :=
    hreceived.split.length_eq
  have hafter : (sent.flatten ++ part).length =
      sent'.length * up.config.partSize + st'.buffer.length := hreceived'.split.length_eq
  have hshort : st'.buffer.length < up.config.partSize := hreceived'.split.rest_lt
  -- whole parts were received before and after, so nothing is left over
  have hrest : st'.buffer.length % up.config.partSize = 0 := by
    rw [List.length_append, hpart, hbefore, hempty, List.length_nil, Nat.add_zero,
      ← Nat.succ_mul] at hafter
    rw [← Nat.mul_add_mod_self_right sent'.length, ← hafter, Nat.mul_mod_left]
  rw [Nat.mod_eq_of_lt hshort] at hrest
  have hnil : st'.buffer = [] := List.length_eq_zero_iff.mp hrest
  have hall : sent'.flatten = sent.flatten ++ part := by
    have hflat : sent'.flatten ++ st'.buffer = sent.flatten ++ part := hreceived'.split.flatten
    rw [hnil, List.append_nil] at hflat
    exact hflat
  refine ⟨st', hst, hnil, sent', ?_⟩
  rw [hall]
  exact hreceived'

end MultipartUploader

namespace MultipartUploadState.InFullParts
variable {partSize : ℕ} {st : MultipartUploadState}

theorem new (hp : 0 < partSize) (path : Str) :
    (MultipartUploadState.new path).InFullParts partSize :=
  ⟨rfl, [], .short hp, rfl, rfl, rfl⟩

theorem sizes (h : st.InFullParts partSize) : ∀ part ∈ st.parts, part.size = partSize := by
  obtain ⟨-, sent, hreceived⟩ := h
  have hparts : st.parts = partRecords 0 sent := hreceived.parts
  have hfull : ∀ part ∈ sent, part.length = partSize := hreceived.split.full
  have hsizes := partRecords_sizes 0 sent
  rw [← hparts] at hsizes
  intro part hpart
  have hsize : part.size ∈ sent.map List.length := hsizes ▸ List.mem_map_of_mem hpart
  obtain ⟨bytes, hbytes, hlen⟩ := List.mem_map.mp hsize
  rw [← hlen]
  exact hfull bytes hbytes

theorem numbers (h : st.InFullParts partSize) (hlt : st.parts.length < 2 ^ 32 - 1) :
    st.parts.map (·.partNumber) = List.range' 1 st.parts.length := by
  obtain ⟨-, sent, hreceived⟩ := h
  have hparts : st.parts = partRecords 0 sent := hreceived.parts
  rw [hparts, length_partRecords] at hlt ⊢
  exact partRecords_numbers (by omega)

theorem total (h : st.InFullParts partSize) (hlt : st.parts.length * partSize < 2 ^ 64) :
    st.totalBytes = st.parts.length * partSize := by
  obtain ⟨hempty, sent, hreceived⟩ := h
  have hparts : st.parts = partRecords 0 sent := hreceived.parts
  have hlen : sent.flatten.length = sent.length * partSize + st.buffer.length :=
    hreceived.split.length_eq
  have htotal : st.totalBytes = u64 sent.flatten.length := hreceived.total
  rw [hempty, List.length_nil, Nat.add_zero] at hlen
  rw [hparts, length_partRecords] at hlt ⊢
  rw [htotal, hlen]
  exact u64_eq hlt

end MultipartUploadState.InFullParts

/-! ### One buffer -/

namespace WriteBufferConfig
variable (cfg : WriteBufferConfig) (hp : 0 < cfg.partSize)
include hp

theorem partLoop_bounded {k : ℕ} {buf buf' : FileWriteBuffer} {up : MultipartUploadState}
    (hup : buf.multipart = some up) (hfull : up.InFullParts cfg.partSize)
    (h : cfg.partLoop k buf = some buf') :
    ∃ up', buf'.multipart = some up' ∧ buf'.data.length < cfg.partSize ∧
      up'.InFullParts cfg.partSize := by
  induction k generalizing buf up with
  | zero => cases h
  | succ k ih =>
    unfold partLoop at h
    split at h
    · next hlen =>
      have hpart : (buf.data.take cfg.partSize).length = cfg.partSize := by
        rw [List.length_take, Nat.min_eq_left hlen]
      obtain ⟨up', hwrite, hfull'⟩ :=
        @MultipartUploader.write_inFullParts cfg.uploader hp up hfull _ hpart
      simp only [hup, hwrite] at h
      exact ih rfl hfull' h
    · next hlen =>
      cases h
      exact ⟨up, hup, Nat.not_le.mp hlen, hfull⟩

theorem flushParts_uploading {buf : FileWriteBuffer} {up : MultipartUploadState}
    (hup : buf.multipart = some up) (hfull : up.InFullParts cfg.partSize) :
    ∃ buf' up', cfg.flushParts buf = some buf' ∧ buf'.multipart = some up' ∧
      buf'.data.length < cfg.partSize ∧ up'.InFullParts cfg.partSize := by
  have hsome : buf.multipart.isSome := by
    rw [hup]
    rfl
  obtain ⟨rest, up', hparts⟩ :=
    cfg.partLoop_returns hp (buf.data.length + 1) buf (Nat.lt_succ_self _) hsome
  obtain ⟨up'', hup', hless, hfull'⟩ := cfg.partLoop_bounded hp hup hfull hparts
  rw [flushParts, if_pos hsome]
  exact ⟨_, up'', hparts, hup', hless, hfull'⟩

theorem startMultipart_inFullParts {buf : FileWriteBuffer} {up : MultipartUploadState}
    (hfull : ∀ up, buf.multipart = some up → up.InFullParts cfg.partSize) {path : Str}
    (hup : (cfg.startMultipart buf path).multipart = some up) : up.InFullParts cfg.partSize := by
  unfold startMultipart at hup
  split at hup
  · rw [← Option.some.inj hup]
    exact .new hp path
  · exact hfull up hup

theorem flushBuffer_bounded {buf : FileWriteBuffer} (cl : ObsClient) (h : buf.Bounded cfg) :
    (cfg.flushBuffer buf cl).2.1.Bounded cfg := by
  rcases cfg.flushBuffer_cases buf cl with
    ⟨-, heq⟩ | ⟨-, ⟨hm, ⟨-, heq⟩ | ⟨e, -, heq⟩⟩ | ⟨up, hm, ⟨hloops, -⟩ | ⟨-, heq⟩⟩⟩
  · rw [heq]
    exact h
  · rw [heq]
    exact .of_empty rfl rfl
  · rw [heq]
    exact .of_empty hm rfl
  · obtain ⟨up', hwrite⟩ := cfg.uploader.write_returns hp up buf.data
    rw [hwrite] at hloops
    cases hloops
  · rw [heq]
    exact .of_empty rfl rfl

omit hp in
/-- A flush of a dirty buffer leaves nothing in it, whatever the storage answers. -/
theorem flushBuffer_dirty_bounded {buf : FileWriteBuffer} (cl : ObsClient)
    (hd : buf.dirty = true) (hm : buf.multipart = none) :
    (cfg.flushBuffer buf cl).2.1.Bounded cfg := by
  obtain ⟨hempty, -⟩ := @flushBuffer_keeps cfg buf cl fun _ => hd
  refine .of_empty ?_ hempty
  rcases cfg.flushBuffer_cases buf cl with
    ⟨-, heq⟩ | ⟨-, ⟨-, ⟨-, heq⟩ | ⟨e, -, heq⟩⟩ | ⟨up, hup, -⟩⟩
  · rw [heq]
    exact hm
  · rw [heq]
    rfl
  · rw [heq]
    exact hm
  · rw [hm] at hup
    cases hup

theorem direct_bounded {buf : FileWriteBuffer} (cl : ObsClient) (now : Instant) (path : Str)
    (offset : ℕ) (data : Bytes) (h : buf.Bounded cfg) (hdir : buf.goesDirect offset = true) :
    (cfg.writeLocked buf cl now path offset data).2.1.Bounded cfg := by
  rw [cfg.writeLocked_direct now path offset data hdir]
  have hplaced : (buf.placed offset data.length).Bounded cfg := h
  have hflushed := cfg.flushBuffer_bounded hp cl hplaced
  generalize cfg.flushBuffer (buf.placed offset data.length) cl = r at hflushed ⊢
  obtain ⟨_ | _ | _, buf', cl'⟩ := r
  · dsimp only at hflushed ⊢
    obtain ⟨_ | _, cl''⟩ := cl'.write path data
    · exact hflushed
    · exact hflushed
  · exact hflushed
  · exact hflushed

omit hp in
/-- A buffer without an upload that needs no flush has room. -/
theorem unfilled_bounded {buf : FileWriteBuffer} (hm : buf.multipart = none)
    (hfill : ¬(buf.needsFlush cfg.bufferSize && buf.multipart.isNone) = true) :
    buf.Bounded cfg := by
  rw [hm, Option.isNone_none, Bool.and_true] at hfill
  have hless : buf.data.length < cfg.bufferSize := by
    have hnot : ¬cfg.bufferSize ≤ buf.data.length := fun hle => hfill (decide_eq_true hle)
    exact Nat.not_le.mp hnot
  unfold FileWriteBuffer.Bounded
  rw [hm]
  exact Nat.lt_of_lt_of_le hless (Nat.le_max_left ..)

theorem writeLocked_bounded {buf : FileWriteBuffer} (cl : ObsClient) (now : Instant) (path : Str)
    (offset : ℕ) (data : Bytes) (h : buf.Bounded cfg) :
    (cfg.writeLocked buf cl now path offset data).2.1.Bounded cfg := by
  cases hdir : buf.goesDirect offset with
  | true => exact cfg.direct_bounded hp cl now path offset data h hdir
  | false =>
    rw [cfg.writeLocked_buffered now path offset data hdir]
    generalize hstarted : cfg.startMultipart (buf.appended now offset data) path = started
    have hdirty : started.dirty = true := by
      rw [← hstarted]
      exact (@startMultipart_keeps cfg (buf.appended now offset data) path).2
    cases hm : started.multipart with
    | none =>
      rw [flushParts_none cfg hm]
      dsimp only
      split
      · have hflushed := cfg.flushBuffer_dirty_bounded cl hdirty hm
        generalize cfg.flushBuffer started cl = r at hflushed ⊢
        obtain ⟨_ | _ | _, buf', cl'⟩ := r
        · exact hflushed
        · exact hflushed
        · exact hflushed
      · next hfill => exact cfg.unfilled_bounded hm hfill
    | some up =>
      have hfull : up.InFullParts cfg.partSize := by
        refine cfg.startMultipart_inFullParts hp ?_ (hstarted ▸ hm)
        intro up' hup'
        have hold : buf.multipart = some up' := hup'
        unfold FileWriteBuffer.Bounded at h
        rw [hold] at h
        exact h.2
      obtain ⟨buf', up', hparts, hup', hless, hfull'⟩ := cfg.flushParts_uploading hp hm hfull
      rw [hparts]
      dsimp only
      rw [hup', Option.isNone_some, Bool.and_false, if_neg Bool.false_ne_true]
      unfold FileWriteBuffer.Bounded
      rw [hup']
      exact ⟨hless, hfull'⟩

theorem bounded_rule : BufferRule cfg (FileWriteBuffer.Bounded cfg) where
  fresh _ _ _ _ := .of_empty rfl rfl
  flush _ cl h := cfg.flushBuffer_bounded hp cl h
  write _ cl now path offset data h := cfg.writeLocked_bounded hp cl now path offset data h
  truncate _ _ _ _ := .of_empty rfl rfl

end WriteBufferConfig

/-! ### Runs of a mount -/

namespace ObsFsCore
variable {cfg : WriteBufferConfig} {P : FileWriteBuffer → Prop} (rule : BufferRule cfg P)
  {s : ObsFsCore} (h : s.writeBuffer.Holds cfg P)
include rule h

theorem doWrite_holds (now : Now) (inode fh offset : ℕ) (data : Bytes) :
    (s.doWrite now inode fh offset data).2.writeBuffer.Holds cfg P := by
  cases hp : s.inodeMgr.getPath inode with
  | none =>
    unfold doWrite
    rw [hp]
    exact h
  | some path =>
    rw [(s.doWrite_buffer hp now fh offset data).1]
    exact h.write rule s.obsClient now.instant inode (s.obsPath path) offset data _

theorem doTruncate_holds (now : Now) (inode size : ℕ) :
    (s.doTruncate now inode size).2.writeBuffer.Holds cfg P := by
  unfold doTruncate
  cases hp : s.inodeMgr.getPath inode with
  | none => exact h
  | some path =>
    dsimp only
    have hwb := h.truncate rule s.obsClient now.instant inode (s.obsPath path) size
    generalize s.writeBuffer.truncate s.obsClient now.instant inode (s.obsPath path) size = r
      at hwb ⊢
    obtain ⟨_ | _ | _, wb, cl⟩ := r
    · exact hwb
    · exact hwb
    · exact hwb

/-- A property that the write buffer keeps holds after every operation of the core. -/
theorem step_holds (op : FsOp) : (s.step op).writeBuffer.Holds cfg P := by
  cases op with
  | lookup now parent name =>
    have hsame := (s.doLookup_sameFiles now parent name).writeBuffer
    exact hsame ▸ h
  | readdir now inode offset =>
    have hsame := (s.doReaddir_sameFiles now inode offset).writeBuffer
    exact hsame ▸ h
  | getattr now inode =>
    have hsame := (s.doGetattr_sameFiles now inode).writeBuffer
    exact hsame ▸ h
  | read now inode fh offset size =>
    have hsame := s.doRead_writeBuffer now inode fh offset size
    exact hsame ▸ h
  | prefetch now n permit =>
    have hsame := s.prefetchTask_writeBuffer now n permit
    exact hsame ▸ h
  | create now parent name mode flags =>
    have hsame := (s.doCreate_interns now parent name mode flags).writeBuffer
    exact hsame ▸ h
  | mkdir now parent name mode =>
    have hsame := (s.doMkdir_sameFiles now parent name mode).writeBuffer
    exact hsame ▸ h
  | unlink parent name =>
    have hsame := (s.doUnlink_names parent name).2.1
    exact hsame ▸ h
  | rmdir parent name =>
    have hsame := (s.doRmdir_sameFiles parent name).writeBuffer
    exact hsame ▸ h
  | rename now parent name newParent newName =>
    have hsame := (s.doRename_sameFiles now parent name newParent newName).writeBuffer
    exact hsame ▸ h
  | openFile now inode flags | opendir now inode flags | close fh => exact h
  | write now inode fh offset data => exact doWrite_holds rule h now inode fh offset data
  | truncate now inode size => exact doTruncate_holds rule h now inode size
  | release inode fh =>
    show (s.doRelease inode fh).2.writeBuffer.Holds cfg P
    rw [(s.doRelease_buffer inode fh).1]
    exact h.release s.obsClient inode
  | fsync inode | flush inode => exact h.flush rule s.obsClient inode
  | flushAll order | flushExpired now order => exact h.flushEach rule s.obsClient _ _

theorem event_holds (ev : CoreEvent) : (s.event ev).writeBuffer.Holds cfg P := by
  cases ev with
  | op call => exact step_holds rule h call
  | cacheGet now inode => exact h
  | cachePut now inode attr => exact h
  | foreign objects => exact h

end ObsFsCore

/-- In every run, whatever the storage answers and other clients do, what the buffer of a file
holds is less than the buffer size or, during an upload, less than a part. The upload consists of
whole parts, which are recorded in order and add up to what it counts. -/
theorem buffered_bytes_bounded (config : Config) (valid : config.validate = .ok ())
    (env : Surroundings) (hp : 0 < config.performance.toWriteBuffer.partSize)
    (evs : List CoreEvent) (inode : ℕ) {buf : FileWriteBuffer}
    (h : AList.lookup inode (run ObsFsCore.event (.new config valid env) evs).writeBuffer.buffers =
      some buf) :
    let cfg := config.performance.toWriteBuffer
    (buf.multipart = none → buf.data.length < max cfg.bufferSize 1) ∧
      ∀ up, buf.multipart = some up →
        buf.data.length < cfg.partSize ∧ up.buffer = [] ∧
          (∀ part ∈ up.parts, part.size = cfg.partSize) ∧
          (up.parts.length < 2 ^ 32 - 1 →
            up.parts.map (·.partNumber) = List.range' 1 up.parts.length) ∧
          (up.parts.length * cfg.partSize < 2 ^ 64 →
            up.totalBytes = up.parts.length * cfg.partSize) := by
  intro cfg
  have hstart : (ObsFsCore.new config valid env).writeBuffer.Holds cfg
      (FileWriteBuffer.Bounded cfg) := ⟨rfl, nofun⟩
  have hstep : ∀ (s : ObsFsCore) ev, s.writeBuffer.Holds cfg (FileWriteBuffer.Bounded cfg) →
      (s.event ev).writeBuffer.Holds cfg (FileWriteBuffer.Bounded cfg) :=
    fun _ ev hs => ObsFsCore.event_holds (cfg.bounded_rule hp) hs ev
  have hrun := run_kept hstep hstart evs
  have hbounded := hrun.buffers inode buf h
  unfold FileWriteBuffer.Bounded at hbounded
  constructor
  · intro hm
    rw [hm] at hbounded
    exact hbounded
  · intro up hm
    rw [hm] at hbounded
    exact ⟨hbounded.1, hbounded.2.1, hbounded.2.sizes, hbounded.2.numbers, hbounded.2.total⟩

/-- A mount that uploads from two bytes on, in parts of three. -/
def Config.smallParts : Config :=
  { Config.basic with
    performance :=
      { PerformanceConfig.default with multipartThreshold := 2, multipartPartSize := 3 } }

/-- Of eight bytes written, two parts are uploaded, six bytes, and less than a part is left. -/
theorem eight_bytes_bounded :
    let s := run ObsFsCore.event (.new .smallParts rfl (.still .fresh))
      [.op (.create ⟨1, 1⟩ rootInode ['f'.toUInt8] 0 0),
        .op (.write ⟨2, 2⟩ 2 1 0 [1, 2, 3, 4, 5, 6, 7, 8])]
    ∃ buf ∈ AList.lookup 2 s.writeBuffer.buffers, ∃ up ∈ buf.multipart,
      buf.data.length < 3 ∧ up.buffer = [] ∧ up.totalBytes = 2 * 3 := by
  intro s
  have hupload : ∃ buf ∈ AList.lookup 2 s.writeBuffer.buffers, ∃ up ∈ buf.multipart,
      up.parts.length = 2 := by decide +kernel
  obtain ⟨buf, hbuf, up, hup, htwo⟩ := hupload
  obtain ⟨hless, hempty, -, -, htotal⟩ := (buffered_bytes_bounded .smallParts rfl (.still .fresh)
    (by decide) _ 2 hbuf).2 up hup
  refine ⟨buf, hbuf, up, hup, hless, hempty, ?_⟩
  rw [htwo] at htotal
  exact htotal (by decide)

end ObsFuse
