import ObsFuse.Cache.FileBuffer
import ObsFuse.Fs.Mount
import ObsFuse.Lib.Loops

/-! # The end of a buffered write

The loops of a write, without a bound on their rounds. Both take a part off a buffer in each
round: a part of size 0 leaves the buffer as it was. -/

namespace ObsFuse
open Lib

namespace MultipartUploader

/-- One round of the `while` loop of `MultipartUploader::write`. -/
def uploadRound (up : MultipartUploader) (st : MultipartUploadState) : MultipartUploadState :=
  match st.takeBuffer up.config.partSize with
  | some (partData, st) => st.uploadPart partData
  | none => st

/-- `MultipartUploader::write` ends, and leaves the second state. -/
def WritesTo (up : MultipartUploader) (st : MultipartUploadState) (data : Bytes)
    (st' : MultipartUploadState) : Prop :=
  While (fun st => st.bufferReady up.config.partSize = true)
    (fun st st' => st' = up.uploadRound st) (st.received data) st'

variable {up : MultipartUploader} {st st' : MultipartUploadState} {data : Bytes}

theorem uploadLoop_zero (hp : up.config.partSize = 0) (k : ℕ) (st : MultipartUploadState) :
    up.uploadLoop k st = none := by
  induction k generalizing st with
  | zero => rfl
  | succ k ih =>
    have hready : st.bufferReady up.config.partSize = true := by
      simp [MultipartUploadState.bufferReady, hp]
    simp only [uploadLoop, hready, if_true]
    split
    · exact ih _
    · exact ih _

theorem write_eq_none_iff : up.write st data = none ↔ up.config.partSize = 0 := by
  constructor
  · intro h
    by_contra hp
    obtain ⟨st', hst'⟩ := up.write_returns (Nat.pos_of_ne_zero hp) st data
    rw [h] at hst'
    cases hst'
  · intro hp
    exact uploadLoop_zero hp _ _

theorem uploadLoop_while {k : ℕ} (h : up.uploadLoop k st = some st') :
    While (fun st => st.bufferReady up.config.partSize = true)
      (fun st st' => st' = up.uploadRound st) st st' := by
  induction k generalizing st with
  | zero => cases h
  | succ k ih =>
    unfold uploadLoop at h
    split at h
    · next hready =>
      refine .round hready rfl ?_
      cases htake : st.takeBuffer up.config.partSize with
      | some taken =>
        have hround : up.uploadRound st = taken.2.uploadPart taken.1 := by
          unfold uploadRound
          rw [htake]
        rw [htake] at h
        rw [hround]
        exact ih h
      | none =>
        have hround : up.uploadRound st = st := by
          unfold uploadRound
          rw [htake]
        rw [htake] at h
        rw [hround]
        exact ih h
    · next hready =>
      cases h
      exact .done hready

/-- The rounds of `write` are enough: it ends exactly as its unbounded loop does. -/
theorem writesTo_iff : up.WritesTo st data st' ↔ up.write st data = some st' := by
  constructor
  · intro h
    rcases Nat.eq_zero_or_pos up.config.partSize with hp | hp
    · refine absurd h (While.never (fun _ => True) ?_ (fun _ _ _ _ => trivial) trivial)
      intro st _
      simp [MultipartUploadState.bufferReady, hp]
    · obtain ⟨st'', hst''⟩ := up.write_returns hp st data
      have hsame := While.unique (fun _ _ _ ht ht' => ht.trans ht'.symm) h (uploadLoop_while hst'')
      rw [hst'', hsame]
  · exact uploadLoop_while

theorem writes_iff : (∃ st', up.WritesTo st data st') ↔ 0 < up.config.partSize := by
  have hnone := @write_eq_none_iff up st data
  constructor
  · rintro ⟨st', h⟩
    rw [writesTo_iff] at h
    rw [h] at hnone
    exact Nat.pos_of_ne_zero fun hp => by cases hnone.mpr hp
  · intro hp
    obtain ⟨st', h⟩ := up.write_returns hp st data
    exact ⟨st', writesTo_iff.mpr h⟩

end MultipartUploader

namespace WriteBufferConfig

/-- One round of the part loop of `WriteBuffer::write`. -/
inductive PartRound (cfg : WriteBufferConfig) : FileWriteBuffer → FileWriteBuffer → Prop where
  | upload {buf : FileWriteBuffer} {mpState mpState' : MultipartUploadState} :
    buf.multipart = some mpState →
    cfg.uploader.WritesTo mpState (buf.data.take cfg.partSize) mpState' →
    PartRound cfg buf
      { buf with data := buf.data.drop cfg.partSize, multipart := some mpState' }
  | skip {buf : FileWriteBuffer} : buf.multipart = none →
    PartRound cfg buf { buf with data := buf.data.drop cfg.partSize }

/-- The part loop ends, if there is an upload, and leaves the second buffer. -/
def PartsTo (cfg : WriteBufferConfig) (buf buf' : FileWriteBuffer) : Prop :=
  if buf.multipart.isSome then
    While (fun buf => cfg.partSize ≤ buf.data.length) cfg.PartRound buf buf'
  else buf' = buf

/-- `flush_buffer` ends. -/
def FlushEnds (cfg : WriteBufferConfig) (buf : FileWriteBuffer) : Prop :=
  if !buf.dirty || buf.data.isEmpty then True
  else
    match buf.multipart with
    | some mpState => ∃ mpState', cfg.uploader.WritesTo mpState buf.data mpState'
    | none => True

/-- `WriteBuffer::write` ends, from the point where the file's mutex is held. -/
def WriteEnds (cfg : WriteBufferConfig) (buf : FileWriteBuffer) (now : Instant) (path : Str)
    (offset : ℕ) (data : Bytes) : Prop :=
  let buf := buf.placed offset data.length
  if !buf.sequentialWrite && 0 < buf.originalSize then cfg.FlushEnds buf
  else
    ∃ buf', cfg.PartsTo (cfg.startMultipart (buf.extended now offset data) path) buf' ∧
      (buf'.needsFlush cfg.bufferSize && buf'.multipart.isNone → cfg.FlushEnds buf')

/-- Every part has a byte, or no loop is reached: the write bypasses the buffer and finds no
upload to finish, or starts none and finds none in progress. -/
def AvoidsEmptyParts (cfg : WriteBufferConfig) (buf : FileWriteBuffer) (offset len : ℕ) : Prop :=
  0 < cfg.partSize ∨
    if buf.goesDirect offset then buf.dirty = false ∨ buf.data = [] ∨ buf.multipart = none
    else buf.multipart = none ∧ buf.data.length + len < cfg.multipartThreshold

variable {cfg : WriteBufferConfig} {buf : FileWriteBuffer}

theorem flushEnds_iff : cfg.FlushEnds buf ↔
    0 < cfg.partSize ∨ buf.dirty = false ∨ buf.data = [] ∨ buf.multipart = none := by
  unfold FlushEnds
  cases hd : buf.dirty with
  | false => simp
  | true =>
    by_cases hne : buf.data = []
    · simp [hne]
    · cases hm : buf.multipart with
      | none => simp
      | some mpState =>
        have hwrites := @MultipartUploader.writes_iff cfg.uploader mpState buf.data
        simp only [hne, List.isEmpty_iff, Bool.not_true, Bool.false_or, if_false, hwrites]
        simp [uploader]

theorem parts_iff : (∃ buf', cfg.PartsTo buf buf') ↔ 0 < cfg.partSize ∨ buf.multipart = none := by
  unfold PartsTo
  cases hm : buf.multipart with
  | none => simp
  | some mpState =>
    simp only [Option.isSome_some, if_true, reduceCtorEq, or_false]
    constructor
    · rintro ⟨buf', h⟩
      by_contra hp
      -- the inner loop of the first round does not end
      refine absurd h (While.never (fun buf => buf.multipart.isSome) ?_ ?_ ?_)
      · intro buf _
        omega
      · rintro buf buf'' hsome (⟨-, hw⟩ | hnone)
        · exact absurd (MultipartUploader.writes_iff.mp ⟨_, hw⟩) hp
        · rw [hnone] at hsome
          cases hsome
      · rw [hm]
        rfl
    · intro hp
      refine While.ends (fun buf => buf.multipart.isSome) (fun buf => buf.data.length) ?_ ?_
      · intro buf hsome hlen
        obtain ⟨mpState, hm⟩ := Option.isSome_iff_exists.mp hsome
        obtain ⟨mpState', hw⟩ := (@MultipartUploader.writes_iff cfg.uploader mpState
          (buf.data.take cfg.partSize)).mpr hp
        refine ⟨_, .upload hm hw, rfl, ?_⟩
        show (buf.data.drop cfg.partSize).length < buf.data.length
        rw [List.length_drop]
        omega
      · rw [hm]
        rfl

theorem startMultipart_eq_none_iff (path : Str) :
    (cfg.startMultipart buf path).multipart = none ↔
      buf.multipart = none ∧ buf.data.length < cfg.multipartThreshold := by
  unfold startMultipart
  cases hm : buf.multipart with
  | some mpState => simp [hm]
  | none =>
    split
    · next h => simp [h.1]
    · next h => simpa [hm] using h

theorem writeEnds_direct {offset : ℕ} (h : buf.goesDirect offset = true) (now : Instant)
    (path : Str) (data : Bytes) :
    cfg.WriteEnds buf now path offset data ↔ cfg.FlushEnds (buf.placed offset data.length) := by
  have htest : (!(buf.placed offset data.length).sequentialWrite &&
      decide (0 < (buf.placed offset data.length).originalSize)) = true := h
  simp only [WriteEnds]
  rw [if_pos htest]

/-- The flush after the part loop finds no upload, and so ends. -/
theorem writeEnds_buffered {offset : ℕ} (h : buf.goesDirect offset = false) (now : Instant)
    (path : Str) (data : Bytes) :
    cfg.WriteEnds buf now path offset data ↔
      ∃ buf', cfg.PartsTo (cfg.startMultipart (buf.appended now offset data) path) buf' := by
  have htest : (!(buf.placed offset data.length).sequentialWrite &&
      decide (0 < (buf.placed offset data.length).originalSize)) = false := h
  simp only [WriteEnds]
  rw [if_neg (Bool.not_eq_true _ ▸ htest)]
  constructor
  · rintro ⟨buf', hparts, -⟩
    exact ⟨buf', hparts⟩
  · rintro ⟨buf', hparts⟩
    refine ⟨buf', hparts, ?_⟩
    intro hneeds
    rw [Bool.and_eq_true, Option.isNone_iff_eq_none] at hneeds
    exact flushEnds_iff.mpr (.inr (.inr (.inr hneeds.2)))

theorem writeEnds_iff (now : Instant) (path : Str) (offset : ℕ) (data : Bytes) :
    cfg.WriteEnds buf now path offset data ↔ cfg.AvoidsEmptyParts buf offset data.length := by
  unfold AvoidsEmptyParts
  cases hdir : buf.goesDirect offset with
  | true =>
    rw [writeEnds_direct hdir, flushEnds_iff]
    simp
  | false =>
    rw [writeEnds_buffered hdir, parts_iff, startMultipart_eq_none_iff]
    simp

/-! ### The bounded loops -/

theorem flushBuffer_loops_iff (cl : ObsClient) :
    (cfg.flushBuffer buf cl).1 = .loops ↔ ¬cfg.FlushEnds buf := by
  rw [flushEnds_iff]
  rcases cfg.flushBuffer_cases buf cl with
    ⟨hidle, heq⟩ | ⟨⟨hd, hne⟩, ⟨hm, ⟨-, heq⟩ | ⟨e, -, heq⟩⟩ | ⟨mp, hm, ⟨hw, heq⟩ | ⟨hw, heq⟩⟩⟩
  · rw [heq]
    rcases hidle with h | h <;> simp [h]
  · rw [heq]
    simp [hm]
  · rw [heq]
    simp [hm]
  · have hp : cfg.partSize = 0 := MultipartUploader.write_eq_none_iff.mp hw
    rw [heq]
    simp [hm, hp, hd, hne]
  · have hp : cfg.partSize ≠ 0 := fun hp => hw (MultipartUploader.write_eq_none_iff.mpr hp)
    rw [heq]
    simp [Nat.pos_of_ne_zero hp]

theorem partLoop_zero (hp : cfg.partSize = 0) (k : ℕ) (hm : buf.multipart.isSome) :
    cfg.partLoop k buf = none := by
  cases k with
  | zero => rfl
  | succ k =>
    obtain ⟨mpState, hmp⟩ := Option.isSome_iff_exists.mp hm
    have hnone : cfg.uploader.write mpState (buf.data.take cfg.partSize) = none :=
      MultipartUploader.write_eq_none_iff.mpr hp
    unfold partLoop
    simp only [hp, Nat.zero_le, if_true, hmp]
    rw [hp] at hnone
    rw [hnone]

theorem flushParts_eq_none_iff :
    cfg.flushParts buf = none ↔ ¬∃ buf', cfg.PartsTo buf buf' := by
  rw [parts_iff]
  unfold flushParts
  cases hm : buf.multipart with
  | none => simp
  | some mpState =>
    simp only [Option.isSome_some, if_true, reduceCtorEq, or_false]
    rcases Nat.eq_zero_or_pos cfg.partSize with hp | hp
    · rw [partLoop_zero hp _ (by rw [hm]; rfl)]
      simp [hp]
    · obtain ⟨rest, mp, hrest⟩ := cfg.partLoop_returns hp (buf.data.length + 1) buf
        (Nat.lt_succ_self _) (by rw [hm]; rfl)
      rw [hrest]
      simp [hp]

/-- The bounded loops of `writeLocked` run out of rounds exactly where the write has no end. -/
theorem writeLocked_loops_iff (cl : ObsClient) (now : Instant) (path : Str) (offset : ℕ)
    (data : Bytes) :
    (cfg.writeLocked buf cl now path offset data).1 = .loops ↔
      ¬cfg.WriteEnds buf now path offset data := by
  cases hdir : buf.goesDirect offset with
  | true =>
    rw [writeEnds_direct hdir, ← flushBuffer_loops_iff cl,
      writeLocked_direct cfg now path offset data hdir]
    generalize cfg.flushBuffer (buf.placed offset data.length) cl = r
    obtain ⟨_ | _ | _, buf', cl'⟩ := r
    · dsimp only
      obtain ⟨_ | _, cl''⟩ := cl'.write path data
      · simp
      · simp
    · simp
    · simp
  | false =>
    rw [writeEnds_buffered hdir, ← flushParts_eq_none_iff,
      writeLocked_buffered cfg now path offset data hdir]
    generalize cfg.flushParts (cfg.startMultipart (buf.appended now offset data) path) = parted
    rcases parted with _ | buf'
    · simp
    · dsimp only
      split
      · next hneeds =>
        rw [Bool.and_eq_true, Option.isNone_iff_eq_none] at hneeds
        have hends : ¬(cfg.flushBuffer buf' cl).1 = .loops := by
          rw [flushBuffer_loops_iff, not_not]
          exact flushEnds_iff.mpr (.inr (.inr (.inr hneeds.2)))
        generalize cfg.flushBuffer buf' cl = r at hends
        obtain ⟨_ | _ | _, buf'', cl'⟩ := r
        · simp
        · simp
        · exact absurd rfl hends
      · simp

end WriteBufferConfig

/-- A write under a configuration ends exactly if parts have at least one byte or the write
reaches no loop. -/
theorem write_ends_iff (config : Config) (buffers : Table ℕ FileWriteBuffer) (now : Instant)
    (inode : ℕ) (path : Str) (offset : ℕ) (data : Bytes) (fileSize : ℕ) :
    let wb : WriteBuffer := ⟨buffers, config.performance.toWriteBuffer⟩
    let buf := wb.bufferFor now inode path fileSize
    wb.config.WriteEnds buf now path offset data ↔
      wb.config.AvoidsEmptyParts buf offset data.length :=
  WriteBufferConfig.writeEnds_iff now path offset data

/-- A part size of 0 passes validation; the write that starts an upload has no end. -/
theorem empty_parts_never_end :
    let config : Config := { Config.basic with
      performance := { PerformanceConfig.default with
        multipartThreshold := 1, multipartPartSize := 0 } }
    let wb := WriteBuffer.new config.performance.toWriteBuffer
    config.validate = .ok () ∧
      ¬wb.config.WriteEnds (wb.bufferFor 0 2 ['f'] 0) 0 ['f'] 0 [7] := by
  intro config wb
  refine ⟨rfl, ?_⟩
  rw [WriteBufferConfig.writeEnds_iff]
  rintro (hp | ⟨-, hlen⟩)
  · exact absurd hp (by decide)
  · exact absurd hlen (by decide)

end ObsFuse
