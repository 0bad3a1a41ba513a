import ObsFuse.Cache.WriteBuffer
import ObsFuse.Storage.Requests

/-! # What one step does to a file's buffer

One equation for each way `flush_buffer` and the locked part of `write` can go. Later
proofs cite these and do not unfold the two functions. -/

namespace ObsFuse
open Lib

namespace FileWriteBuffer

/-- The write bypasses the buffer: it is out of order and the file had content. -/
def goesDirect (buf : FileWriteBuffer) (offset : ℕ) : Bool :=
  !(buf.placed offset 0).sequentialWrite && 0 < buf.originalSize

theorem placed_sequentialWrite (buf : FileWriteBuffer) (offset len : ℕ) :
    (buf.placed offset len).sequentialWrite = true ↔
      buf.sequentialWrite = true ∧ offset = buf.nextOffset := by
  by_cases h : offset = buf.nextOffset <;> simp [placed, h]

theorem goesDirect_iff (buf : FileWriteBuffer) (offset : ℕ) :
    buf.goesDirect offset = true ↔
      ¬(buf.sequentialWrite = true ∧ offset = buf.nextOffset) ∧ 0 < buf.originalSize := by
  rw [← placed_sequentialWrite buf offset 0, goesDirect, Bool.and_eq_true, Bool.not_eq_true',
    Bool.not_eq_true, decide_eq_true_eq]

def appended (buf : FileWriteBuffer) (now : Instant) (offset : ℕ) (data : Bytes) :
    FileWriteBuffer :=
  (buf.placed offset data.length).extended now offset data

def grown (buf : FileWriteBuffer) (n : ℕ) : FileWriteBuffer := { buf with size := max buf.size n }

/-- The file's buffer after a truncation that succeeds. -/
def truncated (buf : FileWriteBuffer) (size : ℕ) : FileWriteBuffer :=
  { buf with multipart := none, data := [], size := size, dirty := decide (size ≠ 0) }

def flushed (buf : FileWriteBuffer) : FileWriteBuffer :=
  { buf with data := [], dirty := false, originalSize := buf.size, multipart := none }

@[simp] theorem placed_path (buf : FileWriteBuffer) (o l : ℕ) :
    (buf.placed o l).path = buf.path := rfl
@[simp] theorem placed_data (buf : FileWriteBuffer) (o l : ℕ) :
    (buf.placed o l).data = buf.data := rfl
@[simp] theorem placed_dirty (buf : FileWriteBuffer) (o l : ℕ) :
    (buf.placed o l).dirty = buf.dirty := rfl
@[simp] theorem placed_multipart (buf : FileWriteBuffer) (o l : ℕ) :
    (buf.placed o l).multipart = buf.multipart := rfl
@[simp] theorem placed_originalSize (buf : FileWriteBuffer) (o l : ℕ) :
    (buf.placed o l).originalSize = buf.originalSize := rfl
@[simp] theorem placed_size (buf : FileWriteBuffer) (o l : ℕ) :
    (buf.placed o l).size = buf.size := rfl
@[simp] theorem appended_path (buf : FileWriteBuffer) (now : Instant) (o : ℕ) (d : Bytes) :
    (buf.appended now o d).path = buf.path := rfl
@[simp] theorem appended_data (buf : FileWriteBuffer) (now : Instant) (o : ℕ) (d : Bytes) :
    (buf.appended now o d).data = buf.data ++ d := rfl
@[simp] theorem appended_dirty (buf : FileWriteBuffer) (now : Instant) (o : ℕ) (d : Bytes) :
    (buf.appended now o d).dirty = true := rfl
@[simp] theorem appended_multipart (buf : FileWriteBuffer) (now : Instant) (o : ℕ) (d : Bytes) :
    (buf.appended now o d).multipart = buf.multipart := rfl
@[simp] theorem appended_originalSize (buf : FileWriteBuffer) (now : Instant) (o : ℕ)
    (d : Bytes) : (buf.appended now o d).originalSize = buf.originalSize := rfl
@[simp] theorem placed_nextOffset (buf : FileWriteBuffer) (o l : ℕ) :
    (buf.placed o l).nextOffset = u64 (o + l) := rfl
@[simp] theorem appended_size (buf : FileWriteBuffer) (now : Instant) (o : ℕ) (d : Bytes) :
    (buf.appended now o d).size = max buf.size (u64 (o + d.length)) := rfl
@[simp] theorem appended_sequentialWrite (buf : FileWriteBuffer) (now : Instant) (o : ℕ)
    (d : Bytes) :
    (buf.appended now o d).sequentialWrite = (buf.placed o d.length).sequentialWrite := rfl
@[simp] theorem appended_nextOffset (buf : FileWriteBuffer) (now : Instant) (o : ℕ) (d : Bytes) :
    (buf.appended now o d).nextOffset = u64 (o + d.length) := rfl
@[simp] theorem flushed_path (buf : FileWriteBuffer) : buf.flushed.path = buf.path := rfl
@[simp] theorem flushed_data (buf : FileWriteBuffer) : buf.flushed.data = [] := rfl
@[simp] theorem flushed_dirty (buf : FileWriteBuffer) : buf.flushed.dirty = false := rfl
@[simp] theorem flushed_multipart (buf : FileWriteBuffer) : buf.flushed.multipart = none := rfl
@[simp] theorem flushed_originalSize (buf : FileWriteBuffer) :
    buf.flushed.originalSize = buf.size := rfl
@[simp] theorem flushed_sequentialWrite (buf : FileWriteBuffer) :
    buf.flushed.sequentialWrite = buf.sequentialWrite := rfl
@[simp] theorem flushed_nextOffset (buf : FileWriteBuffer) :
    buf.flushed.nextOffset = buf.nextOffset := rfl

end FileWriteBuffer

namespace WriteBufferConfig
variable (cfg : WriteBufferConfig) {buf : FileWriteBuffer} {cl : ObsClient}

theorem flushBuffer_idle (h : buf.dirty = false ∨ buf.data = []) :
    cfg.flushBuffer buf cl = (.ok (), buf, cl) := by
  unfold flushBuffer
  rcases h with h | h <;> simp [h]

theorem flushBuffer_single (hd : buf.dirty = true) (hne : buf.data ≠ [])
    (hm : buf.multipart = none) :
    cfg.flushBuffer buf cl =
      match cl.write buf.path buf.data with
      | (.error e, cl) => (.err e, { buf with data := [] }, cl)
      | (.ok _, cl) => (.ok (), buf.flushed, cl) := by
  have hne' : buf.data.isEmpty = false := by simpa using hne
  unfold flushBuffer
  rw [hd, hne', hm]
  rcases cl.write buf.path buf.data with ⟨_ | _, _⟩ <;> rfl

theorem flushBuffer_stores (hd : buf.dirty = true) (hne : buf.data ≠ [])
    (hm : buf.multipart = none) (hf : cl.fault = none) :
    cfg.flushBuffer buf cl = (.ok (), buf.flushed, cl.stored buf.path buf.data) := by
  rw [flushBuffer_single cfg hd hne hm, ObsClient.write_stored hf]

/-- A single write that fails has already taken the bytes out of the buffer. -/
theorem flushBuffer_fails (hd : buf.dirty = true) (hne : buf.data ≠ [])
    (hm : buf.multipart = none) {e : ErrorKind} (hf : cl.fault = some e) :
    cfg.flushBuffer buf cl =
      (.err e, { buf with data := [] }, cl.sent (.write buf.path buf.data)) := by
  rw [flushBuffer_single cfg hd hne hm, ObsClient.write_failed hf]

theorem flushBuffer_reliable (hd : buf.data ≠ [] → buf.dirty = true) (hm : buf.multipart = none)
    (hr : cl.Reliable) :
    cfg.flushBuffer buf cl =
      if buf.data = [] then (.ok (), buf, cl)
      else (.ok (), buf.flushed, cl.stored buf.path buf.data) := by
  split
  · next h => exact flushBuffer_idle cfg (.inr h)
  · next h => exact flushBuffer_stores cfg (hd h) h hm hr.fault

/-- Completing a multipart upload makes no request. -/
theorem flushBuffer_upload (hd : buf.dirty = true) (hne : buf.data ≠ [])
    {mp : MultipartUploadState} (hm : buf.multipart = some mp) :
    cfg.flushBuffer buf cl =
      match cfg.uploader.write mp buf.data with
      | none => (.loops, { buf with data := [] }, cl)
      | some _ => (.ok (), buf.flushed, cl) := by
  have hne' : buf.data.isEmpty = false := by simpa using hne
  simp only [flushBuffer, hd, hne', hm, Bool.not_true, Bool.or_self, Bool.false_eq_true, if_false]
  rfl

/-- All that a flush can do: nothing, a request that succeeds or fails, or the end of an
upload, which may never come. -/
theorem flushBuffer_cases (buf : FileWriteBuffer) (cl : ObsClient) :
    ((buf.dirty = false ∨ buf.data = []) ∧ cfg.flushBuffer buf cl = (.ok (), buf, cl)) ∨
      ((buf.dirty = true ∧ buf.data ≠ []) ∧
        ((buf.multipart = none ∧
            ((cl.fault = none ∧
                cfg.flushBuffer buf cl = (.ok (), buf.flushed, cl.stored buf.path buf.data)) ∨
              ∃ e, cl.fault = some e ∧ cfg.flushBuffer buf cl =
                (.err e, { buf with data := [] }, cl.sent (.write buf.path buf.data)))) ∨
          ∃ mp, buf.multipart = some mp ∧
            ((cfg.uploader.write mp buf.data = none ∧
                cfg.flushBuffer buf cl = (.loops, { buf with data := [] }, cl)) ∨
              (cfg.uploader.write mp buf.data ≠ none ∧
                cfg.flushBuffer buf cl = (.ok (), buf.flushed, cl))))) := by
  by_cases hidle : buf.dirty = false ∨ buf.data = []
  · exact .inl ⟨hidle, flushBuffer_idle cfg hidle⟩
  · obtain ⟨hd, hne⟩ := not_or.mp hidle
    rw [Bool.not_eq_false] at hd
    refine .inr ⟨⟨hd, hne⟩, ?_⟩
    rcases Option.eq_none_or_eq_some buf.multipart with hm | ⟨mp, hm⟩
    · refine .inl ⟨hm, ?_⟩
      rcases Option.eq_none_or_eq_some cl.fault with hf | ⟨e, hf⟩
      · exact .inl ⟨hf, flushBuffer_stores cfg hd hne hm hf⟩
      · exact .inr ⟨e, hf, flushBuffer_fails cfg hd hne hm hf⟩
    · refine .inr ⟨mp, hm, ?_⟩
      rw [flushBuffer_upload cfg hd hne hm]
      cases cfg.uploader.write mp buf.data with
      | none => exact .inl ⟨rfl, rfl⟩
      | some mp' => exact .inr ⟨Option.some_ne_none mp', rfl⟩

theorem flushBuffer_frame (hm : buf.multipart = none ∨ 0 < cfg.partSize) (hr : cl.Reliable) :
    ∃ buf' cl', cfg.flushBuffer buf cl = (.ok (), buf', cl') ∧ buf'.path = buf.path ∧
      (buf'.multipart = none ∨ 0 < cfg.partSize) ∧ cl'.Reliable ∧
      ∀ k, k ≠ buf.path → AList.lookup k cl'.objects = AList.lookup k cl.objects := by
  rcases cfg.flushBuffer_cases buf cl with
    ⟨-, heq⟩ | ⟨-, ⟨-, ⟨-, heq⟩ | ⟨e, hf, -⟩⟩ | ⟨mp, hmp, ⟨hw, -⟩ | ⟨-, heq⟩⟩⟩
  · exact ⟨_, _, heq, rfl, hm, hr, fun _ _ => rfl⟩
  · refine ⟨_, _, heq, rfl, .inl rfl, hr.stored _ _, ?_⟩
    intro k hk
    rw [ObsClient.stored_lookup, if_neg hk]
  · rw [hr.fault] at hf
    cases hf
  · have hp : 0 < cfg.partSize := hm.resolve_left (by rw [hmp]; exact Option.some_ne_none mp)
    obtain ⟨mp', hmp'⟩ := cfg.uploader.write_returns hp mp buf.data
    rw [hmp'] at hw
    cases hw
  · exact ⟨_, _, heq, rfl, .inl rfl, hr, fun _ _ => rfl⟩

/-- A write that bypasses the buffer: a flush, then a whole-object write of its data. -/
theorem writeLocked_direct (now : Instant) (path : Str) (offset : ℕ) (data : Bytes)
    (h : buf.goesDirect offset = true) :
    cfg.writeLocked buf cl now path offset data =
      match cfg.flushBuffer (buf.placed offset data.length) cl with
      | (.loops, buf, cl) => (.loops, buf, cl)
      | (.err e, buf, cl) => (.err e, buf, cl)
      | (.ok _, buf, cl) =>
        match cl.write path data with
        | (.error e, cl) => (.err e, buf, cl)
        | (.ok _, cl) =>
          (.ok data.length, { buf with size := max buf.size (u64 (offset + data.length)) },
            cl) := by
  have hc : (!(buf.placed offset data.length).sequentialWrite &&
      decide (0 < (buf.placed offset data.length).originalSize)) = true := h
  unfold writeLocked
  exact if_pos hc

theorem writeLocked_direct_reliable (now : Instant) (path : Str) (offset : ℕ) (data : Bytes)
    (h : buf.goesDirect offset = true) (hd : buf.data ≠ [] → buf.dirty = true)
    (hm : buf.multipart = none) (hr : cl.Reliable) :
    cfg.writeLocked buf cl now path offset data =
      if buf.data = [] then
        (.ok data.length, (buf.placed offset data.length).grown (u64 (offset + data.length)),
          cl.stored path data)
      else
        (.ok data.length,
          (buf.placed offset data.length).flushed.grown (u64 (offset + data.length)),
          (cl.stored buf.path buf.data).stored path data) := by
  have hflush : cfg.flushBuffer (buf.placed offset data.length) cl = _ :=
    flushBuffer_reliable cfg hd hm hr
  rw [writeLocked_direct cfg now path offset data h, hflush]
  by_cases hb : buf.data = []
  · simp only [FileWriteBuffer.placed_data, hb, if_true, ObsClient.write_stored hr.fault,
      FileWriteBuffer.grown]
  · simp only [FileWriteBuffer.placed_data, hb, if_false,
      ObsClient.write_stored (hr.stored _ _).fault, FileWriteBuffer.grown,
      FileWriteBuffer.placed_path]

theorem writeLocked_buffered (now : Instant) (path : Str) (offset : ℕ) (data : Bytes)
    (h : buf.goesDirect offset = false) :
    cfg.writeLocked buf cl now path offset data =
      match cfg.flushParts (cfg.startMultipart (buf.appended now offset data) path) with
      | none => (.loops, cfg.startMultipart (buf.appended now offset data) path, cl)
      | some buf =>
        if buf.needsFlush cfg.bufferSize && buf.multipart.isNone then
          match cfg.flushBuffer buf cl with
          | (.loops, buf, cl) => (.loops, buf, cl)
          | (.err e, buf, cl) => (.err e, buf, cl)
          | (.ok _, buf, cl) => (.ok data.length, buf, cl)
        else (.ok data.length, buf, cl) := by
  have hc : (!(buf.placed offset data.length).sequentialWrite &&
      decide (0 < (buf.placed offset data.length).originalSize)) = false := h
  simp only [writeLocked, hc, Bool.false_eq_true, if_false]
  rfl

theorem startMultipart_below (path : Str) (h : buf.data.length < cfg.multipartThreshold) :
    cfg.startMultipart buf path = buf :=
  if_neg fun hc => absurd hc.1 (by omega)

theorem flushParts_none (h : buf.multipart = none) : cfg.flushParts buf = some buf := by
  simp [flushParts, h]

theorem flushParts_short (h : buf.data.length < cfg.partSize) : cfg.flushParts buf = some buf := by
  unfold flushParts partLoop
  rw [if_neg (Nat.not_le.mpr h), ite_self]

theorem writeLocked_append (now : Instant) (path : Str) (offset : ℕ) (data : Bytes)
    (h : buf.goesDirect offset = false) (hm : buf.multipart = none)
    (ht : buf.data.length + data.length < cfg.multipartThreshold)
    (hb : buf.data.length + data.length < cfg.bufferSize) :
    cfg.writeLocked buf cl now path offset data =
      (.ok data.length, buf.appended now offset data, cl) := by
  have ht' : (buf.appended now offset data).data.length < cfg.multipartThreshold := by simpa
  have hm' : (buf.appended now offset data).multipart = none := hm
  have hb' : (buf.appended now offset data).needsFlush cfg.bufferSize = false := by
    simpa [FileWriteBuffer.needsFlush] using hb
  rw [writeLocked_buffered cfg now path offset data h, startMultipart_below cfg path ht',
    flushParts_none cfg hm']
  simp [hb']

theorem writeLocked_autoflush (now : Instant) (path : Str) (offset : ℕ) (data : Bytes)
    (h : buf.goesDirect offset = false) (hm : buf.multipart = none)
    (ht : buf.data.length + data.length < cfg.multipartThreshold)
    (hb : cfg.bufferSize ≤ buf.data.length + data.length) :
    cfg.writeLocked buf cl now path offset data =
      match cfg.flushBuffer (buf.appended now offset data) cl with
      | (.loops, buf, cl) => (.loops, buf, cl)
      | (.err e, buf, cl) => (.err e, buf, cl)
      | (.ok _, buf, cl) => (.ok data.length, buf, cl) := by
  have ht' : (buf.appended now offset data).data.length < cfg.multipartThreshold := by simpa
  have hm' : (buf.appended now offset data).multipart = none := hm
  have hb' : (buf.appended now offset data).needsFlush cfg.bufferSize = true := by
    simpa [FileWriteBuffer.needsFlush] using hb
  rw [writeLocked_buffered cfg now path offset data h, startMultipart_below cfg path ht',
    flushParts_none cfg hm']
  simp only [hb', hm', Option.isNone_none, Bool.and_true, if_true]

theorem writeLocked_ok {now : Instant} {path : Str} {offset n : ℕ} {data : Bytes}
    (h : (cfg.writeLocked buf cl now path offset data).1 = .ok n) : n = data.length := by
  cases hd : buf.goesDirect offset with
  | true =>
    rw [writeLocked_direct cfg now path offset data hd] at h
    generalize cfg.flushBuffer (buf.placed offset data.length) cl = r at h
    obtain ⟨_ | _ | _, buf', cl'⟩ := r
    · dsimp only at h
      generalize cl'.write path data = w at h
      obtain ⟨_ | _, cl''⟩ := w
      · cases h
      · exact (Outcome.ok.inj h).symm
    · cases h
    · cases h
  | false =>
    rw [writeLocked_buffered cfg now path offset data hd] at h
    generalize cfg.flushParts (cfg.startMultipart (buf.appended now offset data) path) = parted at h
    rcases parted with _ | buf'
    · cases h
    · dsimp only at h
      split at h
      · generalize cfg.flushBuffer buf' cl = r at h
        obtain ⟨_ | _ | _, buf'', cl'⟩ := r
        · exact (Outcome.ok.inj h).symm
        · cases h
        · cases h
      · exact (Outcome.ok.inj h).symm

theorem partLoop_returns (hp : 0 < cfg.partSize) (k : ℕ) (buf : FileWriteBuffer)
    (hk : buf.data.length < k) (hm : buf.multipart.isSome) :
    ∃ rest mp, cfg.partLoop k buf = some { buf with data := rest, multipart := some mp } := by
  induction k generalizing buf with
  | zero => omega
  | succ k ih =>
    obtain ⟨mp, hmp⟩ := Option.isSome_iff_exists.mp hm
    unfold partLoop
    split
    · next hpart =>
      obtain ⟨mp', hw⟩ := cfg.uploader.write_returns hp mp (buf.data.take cfg.partSize)
      simp only [hmp, hw]
      have hlen : (buf.data.drop cfg.partSize).length < k := by
        rw [List.length_drop]
        omega
      exact ih { buf with data := buf.data.drop cfg.partSize, multipart := some mp' } hlen rfl
    · exact ⟨buf.data, mp, by rw [← hmp]⟩

theorem partLoop_multipart {k : ℕ} {buf buf' : FileWriteBuffer}
    (h : cfg.partLoop k buf = some buf') : buf'.multipart.isSome = buf.multipart.isSome := by
  induction k generalizing buf with
  | zero => cases h
  | succ k ih =>
    unfold partLoop at h
    split at h
    · cases hm : buf.multipart with
      | none =>
        rw [hm] at h
        have hrest := ih h
        simpa [hm] using hrest
      | some mp =>
        rw [hm] at h
        dsimp only at h
        generalize cfg.uploader.write mp (buf.data.take cfg.partSize) = w at h
        rcases w with _ | mp'
        · cases h
        · exact ih h
    · cases h
      rfl

theorem flushParts_startMultipart {path : Str} {buf' : FileWriteBuffer}
    (h : cfg.flushParts (cfg.startMultipart buf path) = some buf') (hm : buf'.multipart = none) :
    buf' = buf := by
  have hnone : (cfg.startMultipart buf path).multipart = none := by
    cases hs : (cfg.startMultipart buf path).multipart with
    | none => rfl
    | some mp =>
      rw [flushParts, if_pos (by rw [hs]; rfl)] at h
      have hkeep := cfg.partLoop_multipart h
      rw [hs, hm] at hkeep
      cases hkeep
  rw [flushParts_none cfg hnone] at h
  cases h
  unfold startMultipart at hnone ⊢
  split
  · next hc =>
    rw [if_pos hc] at hnone
    cases hnone
  · rfl

/-- A flush sends at most one request: all the buffered bytes, to the buffer's path. It
leaves the buffer empty and where it is. -/
theorem flushBuffer_keeps (hd : buf.data ≠ [] → buf.dirty = true) :
    (cfg.flushBuffer buf cl).2.1.data = [] ∧ (cfg.flushBuffer buf cl).2.1.path = buf.path ∧
      ∃ reqs, (cfg.flushBuffer buf cl).2.2.log = cl.log ++ reqs ∧
        ∀ r ∈ reqs, buf.data ≠ [] ∧ r = .write buf.path buf.data := by
  have hsend (hne : buf.data ≠ []) : ∀ r ∈ [Request.write buf.path buf.data],
      buf.data ≠ [] ∧ r = .write buf.path buf.data := by
    intro r hr
    exact ⟨hne, List.mem_singleton.mp hr⟩
  have hsilent : cl.log = cl.log ++ [] := (List.append_nil _).symm
  have hnone : ∀ r ∈ ([] : List Request), buf.data ≠ [] ∧ r = .write buf.path buf.data :=
    fun _ hr => absurd hr List.not_mem_nil
  rcases cfg.flushBuffer_cases buf cl with
    ⟨hidle, heq⟩ | ⟨⟨-, hne⟩, ⟨-, ⟨-, heq⟩ | ⟨e, -, heq⟩⟩ | ⟨mp, -, ⟨-, heq⟩ | ⟨-, heq⟩⟩⟩
  · have hempty : buf.data = [] := by
      rcases hidle with hclean | hempty
      · by_contra hne
        rw [hd hne] at hclean
        cases hclean
      · exact hempty
    rw [heq]
    exact ⟨hempty, rfl, [], hsilent, hnone⟩
  · rw [heq]
    exact ⟨rfl, rfl, _, rfl, hsend hne⟩
  · rw [heq]
    exact ⟨rfl, rfl, _, rfl, hsend hne⟩
  · rw [heq]
    exact ⟨rfl, rfl, [], hsilent, hnone⟩
  · rw [heq]
    exact ⟨rfl, rfl, [], hsilent, hnone⟩

theorem partLoop_keeps {k : ℕ} {buf buf' : FileWriteBuffer} (h : cfg.partLoop k buf = some buf') :
    buf'.path = buf.path ∧ buf'.dirty = buf.dirty := by
  induction k generalizing buf with
  | zero => cases h
  | succ k ih =>
    unfold partLoop at h
    split at h
    · cases hm : buf.multipart with
      | none =>
        rw [hm] at h
        have hrest := ih h
        exact hrest
      | some mp =>
        rw [hm] at h
        dsimp only at h
        generalize cfg.uploader.write mp (buf.data.take cfg.partSize) = w at h
        rcases w with _ | mp'
        · cases h
        · have hrest := ih h
          exact hrest
    · cases h
      exact ⟨rfl, rfl⟩

theorem flushParts_keeps {buf buf' : FileWriteBuffer} (h : cfg.flushParts buf = some buf') :
    buf'.path = buf.path ∧ buf'.dirty = buf.dirty := by
  unfold flushParts at h
  split at h
  · exact cfg.partLoop_keeps h
  · cases h
    exact ⟨rfl, rfl⟩

theorem startMultipart_keeps (path : Str) :
    (cfg.startMultipart buf path).path = buf.path ∧
      (cfg.startMultipart buf path).dirty = buf.dirty := by
  unfold startMultipart
  split <;> exact ⟨rfl, rfl⟩

/-- A write leaves the buffer's path as it is, and bytes in the buffer, dirty, only if it
does not bypass it. -/
theorem writeLocked_keeps (hd : buf.data ≠ [] → buf.dirty = true) (now : Instant) (path : Str)
    (offset : ℕ) (data : Bytes) :
    (cfg.writeLocked buf cl now path offset data).2.1.path = buf.path ∧
      ((cfg.writeLocked buf cl now path offset data).2.1.data ≠ [] →
        (cfg.writeLocked buf cl now path offset data).2.1.dirty = true ∧
          buf.goesDirect offset = false) := by
  cases hdir : buf.goesDirect offset with
  | true =>
    rw [writeLocked_direct cfg now path offset data hdir]
    obtain ⟨hdata, hpath, -⟩ := @flushBuffer_keeps cfg (buf.placed offset data.length) cl hd
    generalize cfg.flushBuffer (buf.placed offset data.length) cl = r at hdata hpath ⊢
    obtain ⟨_ | _ | _, buf', cl'⟩ := r
    · dsimp only at hdata hpath ⊢
      obtain ⟨_ | _, cl''⟩ := cl'.write path data
      · exact ⟨hpath, fun hne => absurd hdata hne⟩
      · exact ⟨hpath, fun hne => absurd hdata hne⟩
    · exact ⟨hpath, fun hne => absurd hdata hne⟩
    · exact ⟨hpath, fun hne => absurd hdata hne⟩
  | false =>
    rw [writeLocked_buffered cfg now path offset data hdir]
    obtain ⟨hspath, hsdirty⟩ := @startMultipart_keeps cfg (buf.appended now offset data) path
    cases hparts : cfg.flushParts (cfg.startMultipart (buf.appended now offset data) path) with
    | none => exact ⟨hspath, fun _ => ⟨hsdirty, rfl⟩⟩
    | some parted =>
      have hkeep : parted.path = buf.path ∧ parted.dirty = true := by
        obtain ⟨hppath, hpdirty⟩ := cfg.flushParts_keeps hparts
        exact ⟨hppath.trans hspath, hpdirty.trans hsdirty⟩
      dsimp only
      split
      · obtain ⟨hdata, hpath, -⟩ := @flushBuffer_keeps cfg parted cl fun _ => hkeep.2
        generalize cfg.flushBuffer parted cl = r at hdata hpath ⊢
        obtain ⟨_ | _ | _, buf', cl'⟩ := r
        · exact ⟨hpath.trans hkeep.1, fun hne => absurd hdata hne⟩
        · exact ⟨hpath.trans hkeep.1, fun hne => absurd hdata hne⟩
        · exact ⟨hpath.trans hkeep.1, fun hne => absurd hdata hne⟩
      · exact ⟨hkeep.1, fun _ => ⟨hkeep.2, rfl⟩⟩

theorem flushBuffer_grows (buf : FileWriteBuffer) (cl : ObsClient) :
    cl.Grows (cfg.flushBuffer buf cl).2.2 := by
  rcases cfg.flushBuffer_cases buf cl with
    ⟨-, heq⟩ | ⟨-, ⟨-, ⟨-, heq⟩ | ⟨e, -, heq⟩⟩ | ⟨mp, -, ⟨-, heq⟩ | ⟨-, heq⟩⟩⟩
  · rw [heq]
    exact .refl cl
  · rw [heq]
    exact cl.stored_grows ..
  · rw [heq]
    exact ⟨rfl, fun _ hkey => hkey⟩
  · rw [heq]
    exact .refl cl
  · rw [heq]
    exact .refl cl

theorem writeLocked_grows (buf : FileWriteBuffer) (cl : ObsClient) (now : Instant) (path : Str)
    (offset : ℕ) (data : Bytes) :
    cl.Grows (cfg.writeLocked buf cl now path offset data).2.2 := by
  cases hdir : buf.goesDirect offset with
  | true =>
    rw [writeLocked_direct cfg now path offset data hdir]
    have hflush := cfg.flushBuffer_grows (buf.placed offset data.length) cl
    generalize cfg.flushBuffer (buf.placed offset data.length) cl = r at hflush ⊢
    obtain ⟨_ | _ | _, buf', cl'⟩ := r
    · dsimp only at hflush ⊢
      have hwrite := hflush.trans (cl'.write_grows path data)
      generalize cl'.write path data = w at hwrite ⊢
      obtain ⟨_ | _, cl''⟩ := w
      · exact hwrite
      · exact hwrite
    · exact hflush
    · exact hflush
  | false =>
    rw [writeLocked_buffered cfg now path offset data hdir]
    cases cfg.flushParts (cfg.startMultipart (buf.appended now offset data) path) with
    | none => exact .refl cl
    | some parted =>
      dsimp only
      split
      · have hflush := cfg.flushBuffer_grows parted cl
        generalize cfg.flushBuffer parted cl = r at hflush ⊢
        obtain ⟨_ | _ | _, buf', cl'⟩ := r
        · exact hflush
        · exact hflush
        · exact hflush
      · exact .refl cl

theorem startMultipart_uploads (now : Instant) (path : Str) (offset : ℕ) (data : Bytes)
    (hm : ¬(buf.multipart = none ∧ buf.data.length + data.length < cfg.multipartThreshold)) :
    ∃ mp, cfg.startMultipart (buf.appended now offset data) path =
      { buf.appended now offset data with multipart := some mp } := by
  cases hmp : buf.multipart with
  | none =>
    have ht : cfg.multipartThreshold ≤ (buf.appended now offset data).data.length := by
      simpa [hmp] using hm
    exact ⟨_, if_pos ⟨ht, by simp [hmp]⟩⟩
  | some mp =>
    refine ⟨mp, ?_⟩
    rw [startMultipart, if_neg (by simp [hmp]), ← hmp]
    rfl

theorem writeLocked_parts (hp : 0 < cfg.partSize) (now : Instant) (path : Str) (offset : ℕ)
    (data : Bytes) (h : buf.goesDirect offset = false)
    (hm : ¬(buf.multipart = none ∧ buf.data.length + data.length < cfg.multipartThreshold)) :
    ∃ rest mp, cfg.writeLocked buf cl now path offset data =
      (.ok data.length, { buf.appended now offset data with data := rest, multipart := some mp },
        cl) := by
  obtain ⟨mp, hstart⟩ := cfg.startMultipart_uploads now path offset data hm
  obtain ⟨rest, mp', hloop⟩ := cfg.partLoop_returns hp
    ((buf.appended now offset data).data.length + 1)
    { buf.appended now offset data with multipart := some mp } (Nat.lt_succ_self _) rfl
  refine ⟨rest, mp', ?_⟩
  rw [writeLocked_buffered cfg now path offset data h, hstart, flushParts]
  simp only [Option.isSome_some, if_true, hloop, Option.isNone_some, Bool.and_false,
    Bool.false_eq_true, if_false]

end WriteBufferConfig

namespace WriteBuffer

theorem release_some {wb : WriteBuffer} {cl : ObsClient} {inode : ℕ} {buf : FileWriteBuffer}
    (h : wb.buffers.lookup inode = some buf) :
    wb.release cl inode =
      ((wb.config.flushBuffer buf cl).1, { wb with buffers := wb.buffers.erase inode },
        (wb.config.flushBuffer buf cl).2.2) := by
  simp [release, h]

theorem release_none {wb : WriteBuffer} {cl : ObsClient} {inode : ℕ}
    (h : wb.buffers.lookup inode = none) : wb.release cl inode = (.ok (), wb, cl) := by
  simp [release, h]

theorem write_eq (wb : WriteBuffer) (cl : ObsClient) (now : Instant) (inode : ℕ) (path : Str)
    (offset : ℕ) (data : Bytes) (fileSize : ℕ) :
    wb.write cl now inode path offset data fileSize =
      let r := wb.config.writeLocked (wb.bufferFor now inode path fileSize) cl now path offset data
      (r.1, { wb with buffers := wb.buffers.insert inode r.2.1 }, r.2.2) := by
  unfold write getOrCreate bufferFor
  cases AList.lookup inode wb.buffers with
  | some buf => rfl
  | none => simp [AList.insert_insert]

theorem write_ok {wb : WriteBuffer} {cl : ObsClient} {now : Instant} {inode : ℕ} {path : Str}
    {offset fileSize n : ℕ} {data : Bytes}
    (h : (wb.write cl now inode path offset data fileSize).1 = .ok n) : n = data.length := by
  rw [write_eq] at h
  exact wb.config.writeLocked_ok h

theorem truncate_reliable {wb : WriteBuffer} {cl : ObsClient} (hr : cl.Reliable) (now : Instant)
    (inode : ℕ) (path : Str) (size : ℕ) :
    wb.truncate cl now inode path size =
      let buf := (wb.bufferFor now inode path size).truncated size
      (.ok (), { wb with buffers := wb.buffers.insert inode buf },
        if size = 0 then cl.stored path [] else cl) := by
  unfold truncate getOrCreate bufferFor FileWriteBuffer.truncated
  rw [ObsClient.write_stored hr.fault]
  by_cases hsize : size = 0
  · cases AList.lookup inode wb.buffers with
    | some buf => simp [hsize]
    | none => simp [hsize, AList.insert_insert]
  · cases AList.lookup inode wb.buffers with
    | some buf => simp [hsize]
    | none => simp [hsize, AList.insert_insert]

theorem bufferFor_some {wb : WriteBuffer} {inode : ℕ} {buf : FileWriteBuffer}
    (h : wb.buffers.lookup inode = some buf) (now : Instant) (path : Str) (size : ℕ) :
    wb.bufferFor now inode path size = buf := by
  simp [bufferFor, h]

theorem bufferFor_none {wb : WriteBuffer} {inode : ℕ} (h : wb.buffers.lookup inode = none)
    (now : Instant) (path : Str) (size : ℕ) :
    wb.bufferFor now inode path size = .new now inode path size := by
  simp [bufferFor, h]

end WriteBuffer

end ObsFuse
